import OnreApp.Offers.PricingGap
import OnreApp.Program.Effects
import OnreApp.Program.Genesis

/-!
# Instructions that need a price

Once an offer has an active vector, every instruction that prices it finds a price, if and
only if no vector was ever added with an explicit start before its base time.
-/
namespace OnreApp.Program

open Library.FiniteStore Library.Outcome Library.Run Offers Redemption Tokens Utils

/-- "No active vector", which also stands for "before the base time". -/
abbrev noActiveVector : Error := .offerCore .noActiveVector

/-! ## The instructions -/

section Instructions

variable {env : Env} {w : World} {k : OfferPda} {offer : Offer} {v : OfferVector}

theorem loadTokenAccounts_avoids {ctx : TakeOffer} {vaultAuthority : Pubkey} {l : Ledger} :
    Avoids noActiveVector (ctx.loadTokenAccounts vaultAuthority l) := by
  refine avoids_bind (Ledger.loadAta_avoids nofun) fun _ _ => ?_
  refine avoids_bind (Ledger.loadAta_avoids nofun) fun _ _ => ?_
  refine avoids_bind (Ledger.loadAta_avoids nofun) fun _ _ => ?_
  refine avoids_bind (Ledger.initIfNeeded_avoids nofun) fun _ _ => ?_
  exact avoids_bind (Ledger.loadAta_avoids nofun) fun _ _ => avoids_pure _ _

variable (hk : w.offers.lookup k = some offer) (hv : findActiveVectorAt offer env.now = .ok v)
  (hw : AllWellTimed offer)
include hk hv hw

theorem currentPrice_found {o : Offer} (ho : w.offers.lookup k = some o) :
    Avoids noActiveVector (currentPrice env o) := by
  obtain rfl : offer = o := Option.some.inj (hk.symm.trans ho)
  refine avoids_bind (hv ▸ avoids_ok _ _) fun u hu => ?_
  exact hw.price hu

theorem takeOffer_finds_price {ctx : TakeOffer} {amount : UInt64}
    {approval : Option ApprovalMessage} (hctx : ctx.offerPda = k) :
    Avoids noActiveVector (takeOffer env ctx amount approval w) := by
  refine avoids_bind (avoids_okOr _ nofun) fun o ho => ?_
  rw [World.loadOffer_eq_ok, hctx] at ho
  refine avoids_bind (avoids_okOr _ nofun) fun _ _ => ?_
  refine avoids_bind (avoids_require _ nofun) fun _ _ => ?_
  refine avoids_bind (avoids_require _ nofun) fun _ _ => ?_
  refine avoids_bind (Ledger.loadMint_avoids nofun) fun _ _ => ?_
  refine avoids_bind (avoids_require _ nofun) fun _ _ => ?_
  refine avoids_bind (Ledger.loadMint_avoids nofun) fun _ _ => ?_
  refine avoids_bind (avoids_require _ nofun) fun _ _ => ?_
  refine avoids_bind loadTokenAccounts_avoids fun _ _ => ?_
  refine avoids_bind (verifyOfferApproval_avoids nofun (fun _ => nofun) nofun) fun _ _ => ?_
  refine avoids_bind (processOfferCore_avoids (currentPrice_found hk hv hw ho) nofun
    (fun _ => nofun) nofun nofun) fun _ _ => ?_
  refine avoids_bind (executeTokenOperations_avoids nofun fun _ => nofun) fun _ _ => ?_
  exact avoids_pure _ _

theorem takeOfferPermissionless_finds_price {ctx : TakeOfferPermissionless} {amount : UInt64}
    {approval : Option ApprovalMessage} (hctx : ctx.offerPda = k) :
    Avoids noActiveVector (takeOfferPermissionless env ctx amount approval w) := by
  refine avoids_bind (avoids_okOr _ nofun) fun o ho => ?_
  rw [World.loadOffer_eq_ok, hctx] at ho
  refine avoids_bind (avoids_okOr _ nofun) fun _ _ => ?_
  refine avoids_bind (avoids_require _ nofun) fun _ _ => ?_
  refine avoids_bind (avoids_require _ nofun) fun _ _ => ?_
  refine avoids_bind (Ledger.loadMint_avoids nofun) fun _ _ => ?_
  refine avoids_bind (Ledger.loadMint_avoids nofun) fun _ _ => ?_
  refine avoids_bind (Ledger.loadAta_avoids nofun) fun _ _ => ?_
  refine avoids_bind (Ledger.loadAta_avoids nofun) fun _ _ => ?_
  refine avoids_bind loadTokenAccounts_avoids fun _ _ => ?_
  refine avoids_bind (avoids_require _ nofun) fun _ _ => ?_
  refine avoids_bind (avoids_require _ nofun) fun _ _ => ?_
  refine avoids_bind (avoids_require _ nofun) fun _ _ => ?_
  refine avoids_bind (avoids_require _ nofun) fun _ _ => ?_
  refine avoids_bind (avoids_require _ nofun) fun _ _ => ?_
  refine avoids_bind (avoids_require _ nofun) fun _ _ => ?_
  refine avoids_bind (verifyOfferApproval_avoids nofun (fun _ => nofun) nofun) fun _ _ => ?_
  refine avoids_bind (processOfferCore_avoids (currentPrice_found hk hv hw ho) nofun
    (fun _ => nofun) nofun nofun) fun _ _ => ?_
  refine avoids_bind (Ledger.transferChecked_avoids nofun) fun _ _ => ?_
  refine avoids_bind (executeTokenOperations_avoids nofun fun _ => nofun) fun _ _ => ?_
  refine avoids_bind (Ledger.transferChecked_avoids nofun) fun _ _ => ?_
  exact avoids_pure _ _

theorem fulfillRedemptionRequest_finds_price {ctx : FulfillRedemptionRequest}
    (hctx : ctx.offer = k) : Avoids noActiveVector (fulfillRedemptionRequest env ctx w) := by
  refine avoids_bind (avoids_okOr _ nofun) fun _ _ => ?_
  refine avoids_bind (avoids_require _ nofun) fun _ _ => ?_
  refine avoids_bind (avoids_require _ nofun) fun _ _ => ?_
  refine avoids_bind (avoids_okOr _ nofun) fun o ho => ?_
  rw [World.loadOffer_eq_ok, hctx] at ho
  refine avoids_bind (loadSeededRedemptionOffer_avoids fun _ => nofun) fun _ _ => ?_
  refine avoids_bind (avoids_require _ nofun) fun _ _ => ?_
  refine avoids_bind (loadSeededRedemptionRequest_avoids fun _ => nofun) fun _ _ => ?_
  refine avoids_bind (avoids_require _ nofun) fun _ _ => ?_
  refine avoids_bind (Ledger.loadAta_avoids nofun) fun _ _ => ?_
  refine avoids_bind (Ledger.loadAta_avoids nofun) fun _ _ => ?_
  refine avoids_bind (Ledger.loadMint_avoids nofun) fun _ _ => ?_
  refine avoids_bind (avoids_require _ nofun) fun _ _ => ?_
  refine avoids_bind (Ledger.loadMint_avoids nofun) fun _ _ => ?_
  refine avoids_bind (avoids_require _ nofun) fun _ _ => ?_
  refine avoids_bind (Ledger.initIfNeeded_avoids nofun) fun _ _ => ?_
  refine avoids_bind (Ledger.initIfNeeded_avoids nofun) fun _ _ => ?_
  refine avoids_bind (avoids_require _ nofun) fun _ _ => ?_
  refine avoids_bind (avoids_require _ nofun) fun _ _ => ?_
  refine avoids_bind (processRedemptionCore_avoids (currentPrice_found hk hv hw ho) nofun
    (fun _ => nofun) fun _ => nofun) fun _ _ => ?_
  refine avoids_bind (executeRedemptionOperations_avoids nofun (fun _ => nofun) fun _ => nofun)
    fun _ _ => ?_
  refine avoids_bind (avoids_okOr _ nofun) fun _ _ => ?_
  refine avoids_bind (avoids_okOr _ nofun) fun _ _ => ?_
  exact avoids_pure _ _

omit hw in
/-- A view goes on with the offer and its active vector. -/
theorem view_avoids {ctx : OfferView} (hctx : ctx.offerPda = k) {α : Type}
    {f : Offer × MintAccount → OfferVector → Except Error α}
    (hf : ∀ mint, Avoids noActiveVector (f (offer, mint) v)) :
    Avoids noActiveVector (ctx.load w >>= fun p => findActiveVectorAt p.1 env.now >>= f p) := by
  refine avoids_bind (OfferView.load_avoids (fun _ => nofun) nofun nofun) fun p hp => ?_
  have ho : w.offers.lookup k = some p.1 := hctx ▸ OfferView.load_offer hp
  obtain rfl : offer = p.1 := Option.some.inj (hk.symm.trans ho)
  refine avoids_bind (hv ▸ avoids_ok _ _) fun u hu => ?_
  obtain rfl : v = u := Except.ok.inj (hv.symm.trans hu)
  exact hf p.2

theorem getNav_finds_price {ctx : OfferView} (hctx : ctx.offerPda = k) :
    Avoids noActiveVector (getNav env ctx w) := by
  refine view_avoids hk hv hctx fun _ => ?_
  refine avoids_bind (hw.price hv) fun _ _ => ?_
  refine avoids_bind ?_ fun _ _ => avoids_pure _ _
  refine avoids_bind (avoids_require _ nofun) fun _ _ => ?_
  refine avoids_bind (avoids_okOr _ nofun) fun _ _ => ?_
  exact avoids_bind (avoids_okOr _ nofun) fun _ _ => avoids_okOr _ nofun

theorem getTvl_finds_price {ctx : GetTVL} (hctx : ctx.offerPda = k) :
    Avoids noActiveVector (getTvl env ctx w) := by
  refine view_avoids hk hv hctx fun _ => ?_
  refine avoids_bind (hw.price hv) fun _ _ => ?_
  refine avoids_bind (avoids_okOr _ nofun) fun _ _ => ?_
  refine avoids_bind (avoids_okOr _ nofun) fun _ _ => ?_
  exact avoids_bind (avoids_require _ nofun) fun _ _ => avoids_pure _ _

theorem getNavAdjustment_finds_price {ctx : OfferView} (hctx : ctx.offerPda = k) :
    Avoids noActiveVector (getNavAdjustment env ctx w) := by
  refine view_avoids hk hv hctx fun _ => ?_
  refine avoids_bind (hw.startPrice hv) fun _ _ => ?_
  split
  · next previous hprevious =>
    refine avoids_bind (hw.previousPrice hprevious) fun _ _ => ?_
    refine avoids_bind ?_ fun _ _ => avoids_pure _ _
    unfold priceAdjustment
    split
    · exact avoids_pure _ _
    · exact avoids_bind (avoids_require _ nofun) fun _ _ => avoids_pure _ _
  · exact avoids_pure _ _

end Instructions

/-! ## Runs -/

/-- The clock of a run is positive and never goes back. -/
structure ClockAdvances (actions : List Action) : Prop where
  positive : ∀ a ∈ actions, 0 < a.env.now
  monotone : actions.Pairwise fun a b => a.env.now ≤ b.env.now

instance (actions : List Action) : Decidable (ClockAdvances actions) :=
  decidable_of_iff ((∀ a ∈ actions, 0 < a.env.now) ∧
      actions.Pairwise fun a b => a.env.now ≤ b.env.now)
    ⟨fun h => ⟨h.1, h.2⟩, fun h => ⟨h.positive, h.monotone⟩⟩

/-- If the instruction adds a vector, an explicit start time is not before the base time. -/
def StartsInTime : Instruction → Prop
  | .addOfferVector _ args => args.StartsInTime
  | _ => True

instance : DecidablePred StartsInTime := fun i => by
  cases i
  case addOfferVector _ args => exact inferInstanceAs (Decidable args.StartsInTime)
  all_goals exact instDecidableTrue

/-- An addition that succeeds does not start its vector before its base time. -/
def AddsInTime (w : World) (a : Action) : Prop :=
  (∃ w', step a w = .ok w') → StartsInTime a.instruction

/-- Where an offer has an active vector, the vector has a price and so has every instruction
that needs one. -/
structure NoPricingGap (w : World) (k : OfferPda) (env : Env) (v : OfferVector) : Prop where
  base_le : v.baseTime ≤ env.now
  price : stepPriceAt v env.now ≠ .error noActiveVector
  takeOffer : ∀ ctx amount approval, ctx.offerPda = k →
    Offers.takeOffer env ctx amount approval w ≠ .error noActiveVector
  takeOfferPermissionless : ∀ ctx amount approval, ctx.offerPda = k →
    Offers.takeOfferPermissionless env ctx amount approval w ≠ .error noActiveVector
  fulfillRedemptionRequest : ∀ ctx, ctx.offer = k →
    Redemption.fulfillRedemptionRequest env ctx w ≠ .error noActiveVector
  getNav : ∀ ctx, ctx.offerPda = k → Program.getNav env ctx w ≠ .error noActiveVector
  getTvl : ∀ ctx, ctx.offerPda = k → Program.getTvl env ctx w ≠ .error noActiveVector
  getNavAdjustment : ∀ ctx, ctx.offerPda = k →
    Program.getNavAdjustment env ctx w ≠ .error noActiveVector

theorem noPricingGap_of_wellTimed {w : World} {k : OfferPda} {offer : Offer} {env : Env}
    {v : OfferVector} (hk : w.offers.lookup k = some offer)
    (hv : findActiveVectorAt offer env.now = .ok v) (hw : AllWellTimed offer) :
    NoPricingGap w k env v where
  base_le := hw.active hv
  price := hw.price hv
  takeOffer _ _ _ hctx := takeOffer_finds_price hk hv hw hctx
  takeOfferPermissionless _ _ _ hctx := takeOfferPermissionless_finds_price hk hv hw hctx
  fulfillRedemptionRequest _ hctx := fulfillRedemptionRequest_finds_price hk hv hw hctx
  getNav _ hctx := getNav_finds_price hk hv hw hctx
  getTvl _ hctx := getTvl_finds_price hk hv hw hctx
  getNavAdjustment _ hctx := getNavAdjustment_finds_price hk hv hw hctx

theorem distinctStarts_run {l₀ : Ledger} {actions : List Action}
    (hclock : ∀ a ∈ actions, 0 < a.env.now) {k : OfferPda} {offer : Offer}
    (hk : (run step (World.genesis l₀) actions).offers.lookup k = some offer) :
    DistinctStarts offer := by
  refine offers_invariant (C := fun _ a => 0 < a.env.now) (Q := fun _ => DistinctStarts)
    (fun k o ho => absurd ho (World.genesis_offers _ k o))
    (fun _ => distinctStarts_newOffer _ _ _ _ _) (fun _ _ _ h => h) ?_ ?_ k offer hk
  · intro a w w' e k o o' hnow _ _ he hd
    have hpos : 0 < a.env.now.toNat := UInt64.lt_iff_toNat_lt.mp hnow
    exact editVectors_distinct hd hpos he
  · exact along_of_forall fun a ha _ => hclock a ha

/-- In every state a run reaches, from then on, no offer with an active vector lacks a price:
exactly if no addition that succeeded started its vector before its base time. -/
theorem no_pricing_gap_iff {l₀ : Ledger} {actions : List Action} (hclock : ClockAdvances actions) :
    Along step AddsInTime (World.genesis l₀) actions ↔
      ∀ pre post, actions = pre ++ post → ∀ k offer,
        (run step (World.genesis l₀) pre).offers.lookup k = some offer →
        ∀ env v, (∀ a ∈ pre, a.env.now ≤ env.now) → findActiveVectorAt offer env.now = .ok v →
          NoPricingGap (run step (World.genesis l₀) pre) k env v := by
  constructor
  · intro halong pre post he k offer hk env v _ hv
    rw [he] at halong
    refine noPricingGap_of_wellTimed hk hv (offers_invariant (Q := fun _ => AllWellTimed)
      (fun k o ho => absurd ho (World.genesis_offers _ k o))
      (fun _ => allWellTimed_newOffer _ _ _ _ _) (fun _ _ _ h => h) ?_ halong.prefix k offer hk)
    intro a w w' e k o o' hadds hs hinstr he hw
    refine hw.edit (fun args hargs => ?_) he
    obtain ⟨aenv, i⟩ := a
    cases i with
    | addOfferVector ctx args' =>
      obtain rfl := Option.some.inj hinstr
      cases hargs
      exact hadds ⟨w', hs⟩
    | deleteOfferVector | deleteAllOfferVectors =>
      obtain rfl := Option.some.inj hinstr
      cases hargs
    | _ => cases hinstr
  · intro hgap
    rw [along_iff]
    intro pre a post he hok
    obtain ⟨w', hs⟩ := hok
    obtain ⟨env, i⟩ := a
    by_cases hi : ∃ ctx args, i = .addOfferVector ctx args
    swap
    · cases i with
      | addOfferVector ctx args => exact absurd ⟨ctx, args, rfl⟩ hi
      | _ => exact trivial
    obtain ⟨ctx, args, rfl⟩ := hi
    obtain ⟨o, o', hload, hedit, rfl⟩ := addOfferVector_ok hs
    obtain ⟨hstored, _⟩ := BossOfferAccounts.load_eq_ok hload
    have hsplit := List.pairwise_append.mp (he ▸ hclock.monotone)
    have hnow : 0 < env.now := hclock.positive ⟨env, .addOfferVector ctx args⟩ (by rw [he]; simp)
    have hd : DistinctStarts o :=
      distinctStarts_run (fun b hb => hclock.positive b (by rw [he]; simp [hb])) hstored
    have hnow' := UInt64.lt_iff_toNat_lt.mp hnow
    have hactive := newVector_active hd hnow' hedit
    have hle : env.now ≤ (args.newVector env.now).startTime :=
      UInt64.le_iff_toNat_le.mpr (addVector_spec hd hnow' hedit).2.1
    have hrun : run step (World.genesis l₀) (pre ++ [⟨env, .addOfferVector ctx args⟩]) =
        (run step (World.genesis l₀) pre).setOffer ctx.offerPda o' := by
      rw [run_concat, exec_ok hs]
    have hlookup :
        (run step (World.genesis l₀) (pre ++ [⟨env, .addOfferVector ctx args⟩])).offers.lookup
          ctx.offerPda = some o' := by
      rw [hrun]
      exact (lookup_insert_eq _ _ _ _).trans (if_pos rfl)
    -- The state after the addition, looked at when the new vector starts.
    have hgapAt := hgap (pre ++ [⟨env, .addOfferVector ctx args⟩]) post
      (by rw [he, List.append_assoc]; rfl) ctx.offerPda o' hlookup
      { env with clock := ⟨(args.newVector env.now).startTime, env.epoch⟩ }
      (args.newVector env.now) ?_ hactive
    · exact wellTimed_newVector.mp hgapAt.base_le
    · intro b hb
      rcases List.mem_append.mp hb with hb | hb
      · exact UInt64.le_trans (hsplit.2.2 b hb _ List.mem_cons_self) hle
      · rw [List.mem_singleton.mp hb]
        exact hle

/-- The deployment adds its vectors with the default start: an offer of it has a price two
months later. -/
theorem no_pricing_gap_sample :
    let w := run step (World.genesis (Sample.ledger Sample.issuer)) Sample.setup
    NoPricingGap w ⟨Sample.usdc, Sample.onyc⟩ (Sample.env 5000000)
      ⟨1000, 1000, 1000000000, 0, 86400⟩ := by
  intro w
  have hclock : ClockAdvances Sample.setup := by decide
  have hadds : Along step AddsInTime (World.genesis (Sample.ledger Sample.issuer))
      Sample.setup := by
    have hargs : ∀ a ∈ Sample.setup, StartsInTime a.instruction := by decide +kernel
    exact along_of_forall fun a ha _ _ => hargs a ha
  obtain ⟨offer, hoffer⟩ : ∃ offer, w.offers.lookup ⟨Sample.usdc, Sample.onyc⟩ = some offer ∧
      findActiveVectorAt offer 5000000 = .ok ⟨1000, 1000, 1000000000, 0, 86400⟩ := by
    refine ⟨(w.offers.lookup ⟨Sample.usdc, Sample.onyc⟩).get (by decide +kernel),
      (Option.some_get _).symm, ?_⟩
    decide +kernel
  exact (no_pricing_gap_iff hclock).mp hadds Sample.setup [] rfl _ offer hoffer.1 _ _ (by decide)
    hoffer.2

/-- A vector that starts at 2000 and is based at 3000 leaves its offer without a price. -/
def Sample.gap : List Action :=
  setup ++ [act (.addOfferVector ⟨usdc, onyc, boss⟩ ⟨some 2000, 3000, 1000000000, 0, 86400⟩)]

theorem pricing_gap :
    ¬ ∀ (l₀ : Ledger) (actions : List Action), ClockAdvances actions → ∀ k offer,
      (run step (World.genesis l₀) actions).offers.lookup k = some offer → ∀ env v,
        (∀ a ∈ actions, a.env.now ≤ env.now) → findActiveVectorAt offer env.now = .ok v →
          NoPricingGap (run step (World.genesis l₀) actions) k env v := by
  intro h
  let w := run step (World.genesis (Sample.ledger Sample.issuer)) Sample.gap
  have hfound : findActiveVectorAt
      ((w.offers.lookup ⟨Sample.usdc, Sample.onyc⟩).get (by decide +kernel)) 2500 =
        .ok ⟨2000, 3000, 1000000000, 0, 86400⟩ := by decide +kernel
  have hgap := h (Sample.ledger Sample.issuer) Sample.gap (by decide) _ _
    (Option.some_get _).symm (Sample.env 2500) _ (by decide) hfound
  exact absurd hgap.base_le (by decide)

end OnreApp.Program
