import OnreApp.Program.Genesis
import OnreApp.Program.Succession

/-!
# Closing, opening and what lasts

Without a state account the program stands still until whoever may upgrade it initializes it
again. With one, its boss can do much, but neither the boss nor anybody else can take back an
offer, a redemption offer or a token account, or change what they are for.
-/
namespace OnreApp.Program

open Library.Checked Library.FiniteStore Library.Outcome Library.Run Offers Redemption Tokens Utils

/-! ## Without a state account -/

section Closed

variable {env : Env} {i : Instruction} {w w' : World}

/-- Every instruction but `initialize` that writes anything reads the state account. -/
theorem Effect.closed (h : Effect env i w w') (hclosed : w.state = none) :
    w' = w ∨ ∃ ctx, i = .initializeState ctx := by
  have absent : ∀ {s : State} {p : Prop}, w.state = some s → p := by
    intro s p hs
    rw [hclosed] at hs
    cases hs
  cases h with
  | view => exact .inl rfl
  | @initialized ctx s instr => exact .inr ⟨ctx, instr⟩
  | govern stored | acceptBoss _ stored | kill _ stored | close stored | namePermissionless stored
  | makeOffer stored | editOffer stored | deposit stored | withdraw stored | mintTo stored
  | setMintAuthority stored | take _ stored | makeRedemptionOffer _ stored
  | updateRedemptionOfferFee _ stored => exact absent stored
  | createRequest _ created => exact absent created.state_stored
  | cancelRequest _ cancelled => exact absent cancelled.state_stored
  | fulfillRequest _ fulfilled => exact absent fulfilled.state_stored

end Closed

/-- The state account of a program that `ctx` has just initialized. -/
def initialState (ctx : Initialize) : State where
  boss := ctx.boss
  proposedBoss := Pubkey.default
  isKilled := false
  onycMint := ctx.onycMint
  admins := noAdmins
  approver1 := Pubkey.default
  approver2 := Pubkey.default
  maxSupply := 0
  redemptionAdmin := Pubkey.default

/-- From a state without a state account a run changes nothing, unless it initializes the
program: whoever does so holds the upgrade authority, if there is one, finds everything else as
it was left, and starts with no admin, no approver, no redemption admin and no cap. -/
theorem closed_until_initialized {w₀ : World} (hclosed : w₀.state = none) (actions : List Action) :
    run step w₀ actions = w₀ ∨
      ∃ pre env ctx post, actions = pre ++ ⟨env, .initializeState ctx⟩ :: post ∧
        run step w₀ pre = w₀ ∧ (∀ authority ∈ upgradeAuthority env, ctx.boss.key = authority) ∧
          step ⟨env, .initializeState ctx⟩ w₀ = .ok (w₀.setState (initialState ctx)) := by
  induction actions with
  | nil => exact .inl rfl
  | cons a as ih =>
    by_cases hstays : exec step w₀ a = w₀
    · rw [run_cons, hstays]
      rcases ih with hsame | ⟨pre, env, ctx, post, rfl, hpre, hinit⟩
      · exact .inl hsame
      · refine .inr ⟨a :: pre, env, ctx, post, rfl, ?_, hinit⟩
        rw [run_cons, hstays, hpre]
    · cases hs : step a w₀ with
      | error e => exact absurd (exec_error hs) hstays
      | ok w₁ =>
        rcases (execute_effect hs).closed hclosed with rfl | ⟨ctx, hi⟩
        · exact absurd (exec_ok hs) hstays
        · obtain ⟨env, i⟩ := a
          obtain rfl : i = .initializeState ctx := hi
          obtain ⟨_, ⟨authority, hauthority, hsigned⟩, rfl⟩ := initializeState_ok hs
          rw [getUpgradeAuthority_ok hauthority] at hsigned
          exact .inr ⟨[], env, ctx, as, rfl, rfl, hsigned, hs⟩

/-- The boss closes the state account over Alice's open request: the redemption admin can no
longer fulfill it, and nothing else happens either. -/
theorem closed_until_initialized_request :
    let w := run step (World.genesis (Sample.ledger Sample.issuer))
      (Sample.setup ++ [Sample.aliceRequests, Sample.act (.closeState ⟨Sample.boss⟩)])
    run step w [Sample.fulfillAlice, Sample.bobRequests] = w := by
  intro w
  have hclosed : w.state = none := by
    have hnone : w.state.isNone = true := by decide +kernel
    exact Option.isNone_iff_eq_none.mp hnone
  rcases closed_until_initialized hclosed [Sample.fulfillAlice, Sample.bobRequests] with
    hsame | ⟨pre, env, ctx, post, he, _⟩
  · exact hsame
  · have hmem : (⟨env, .initializeState ctx⟩ : Action) ∈
      [Sample.fulfillAlice, Sample.bobRequests] := by
      rw [he]
      exact List.mem_append_right _ List.mem_cons_self
    simp [Sample.fulfillAlice, Sample.bobRequests, Sample.act] at hmem

/-! ## What lasts -/

/-- What an offer is for. -/
def offerTerms (o : Offer) : Pubkey × Pubkey × Bool × Bool :=
  (o.tokenInMint, o.tokenOutMint, o.needsApproval, o.allowPermissionless)

/-- What a redemption offer is for. -/
def redemptionTerms (o : RedemptionOffer) : OfferPda × Pubkey × Pubkey :=
  (o.offer, o.tokenInMint, o.tokenOutMint)

/-- What a redemption offer may become. -/
def Onward (o o' : RedemptionOffer) : Prop :=
  redemptionTerms o' = redemptionTerms o ∧ o.executedRedemptions ≤ o'.executedRedemptions ∧
    o.requestCounter.toNat ≤ o'.requestCounter.toNat

theorem Onward.refl (o : RedemptionOffer) : Onward o o := ⟨rfl, le_rfl, le_rfl⟩

theorem Onward.trans {o o₁ o₂ : RedemptionOffer} (h : Onward o o₁) (h' : Onward o₁ o₂) :
    Onward o o₂ :=
  ⟨h'.1.trans h.1, h.2.1.trans h'.2.1, h.2.2.trans h'.2.2⟩

/-- Accounts stay, on terms that stay, and counters do not run backwards. -/
structure Lasting (w w' : World) : Prop where
  offers : ∀ k o, w.offers.lookup k = some o →
    ∃ o', w'.offers.lookup k = some o' ∧ offerTerms o' = offerTerms o
  redemptionOffers : ∀ k o, w.redemptionOffers.lookup k = some o →
    ∃ o', w'.redemptionOffers.lookup k = some o' ∧ Onward o o'
  accounts : ∀ a, w.ledger.HasAccount a → w'.ledger.HasAccount a
  mints : ∀ k, (w'.ledger.mints.lookup k).map (fun m => (m.tokenProgram, m.decimals)) =
    (w.ledger.mints.lookup k).map fun m => (m.tokenProgram, m.decimals)

theorem Lasting.refl (w : World) : Lasting w w where
  offers := fun _ o ho => ⟨o, ho, rfl⟩
  redemptionOffers := fun _ o ho => ⟨o, ho, .refl o⟩
  accounts := fun _ ha => ha
  mints := fun _ => rfl

theorem Lasting.trans {w w₁ w₂ : World} (h : Lasting w w₁) (h' : Lasting w₁ w₂) :
    Lasting w w₂ where
  offers := by
    intro k o ho
    obtain ⟨o₁, ho₁, ht₁⟩ := h.offers k o ho
    obtain ⟨o₂, ho₂, ht₂⟩ := h'.offers k o₁ ho₁
    exact ⟨o₂, ho₂, ht₂.trans ht₁⟩
  redemptionOffers := by
    intro k o ho
    obtain ⟨o₁, ho₁, h₁⟩ := h.redemptionOffers k o ho
    obtain ⟨o₂, ho₂, h₂⟩ := h'.redemptionOffers k o₁ ho₁
    exact ⟨o₂, ho₂, h₁.trans h₂⟩
  accounts := fun a ha => h'.accounts a (h.accounts a ha)
  mints := fun k => (h'.mints k).trans (h.mints k)

section Lasting

variable {env : Env} {i : Instruction} {w w' : World}

/-- No edit touches what an offer is for. -/
theorem OfferEdit.terms {now : UInt64} {o o' : Offer} (h : OfferEdit now i o o') :
    offerTerms o' = offerTerms o := by
  cases h with
  | vectors _ edited =>
    rw [editVectors_terms edited]
    rfl
  | fee => rfl

theorem Effect.offers_last (h : Effect env i w w') (k : OfferPda) (o : Offer)
    (ho : w.offers.lookup k = some o) :
    ∃ o', w'.offers.lookup k = some o' ∧ offerTerms o' = offerTerms o := by
  cases h with
  | view | initialized | govern | acceptBoss | kill | close | namePermissionless | deposit
  | withdraw | mintTo | setMintAuthority | take | makeRedemptionOffer
  | updateRedemptionOfferFee => exact ⟨o, ho, rfl⟩
  | createRequest _ created => exact ⟨o, by rw [created.result]; exact ho, rfl⟩
  | cancelRequest _ cancelled => exact ⟨o, by rw [cancelled.result]; exact ho, rfl⟩
  | fulfillRequest _ fulfilled => exact ⟨o, by rw [fulfilled.outcome]; exact ho, rfl⟩
  | makeOffer _ _ fresh => exact ⟨o, lookup_insert_of_fresh fresh ho, rfl⟩
  | editOffer _ _ offer edit =>
    exact exists_lookup_insert (R := fun o o' => offerTerms o' = offerTerms o) (fun _ => rfl) offer
      edit.terms ho

theorem Effect.redemptionOffers_last (h : Effect env i w w') (k : RedemptionOfferPda)
    (o : RedemptionOffer) (ho : w.redemptionOffers.lookup k = some o) :
    ∃ o', w'.redemptionOffers.lookup k = some o' ∧ Onward o o' := by
  cases h with
  | view | initialized | govern | acceptBoss | kill | close | namePermissionless | deposit
  | withdraw | mintTo | setMintAuthority | take | makeOffer | editOffer => exact ⟨o, ho, .refl o⟩
  | makeRedemptionOffer _ _ _ fresh => exact ⟨o, lookup_insert_of_fresh fresh ho, .refl o⟩
  | updateRedemptionOfferFee _ _ _ offer =>
    exact exists_lookup_insert .refl offer ⟨rfl, le_rfl, le_rfl⟩ ho
  | @createRequest _ amount _ o₀ _ _ _ created =>
    have honward : Onward o₀ (RedemptionOffer.request o₀ amount) := by
      refine ⟨rfl, le_rfl, ?_⟩
      have hcounter := created.counter
      show _ ≤ (UInt64.ofNat (o₀.requestCounter.toNat + 1)).toNat
      rw [toNat_ofNat_of_lt hcounter]
      omega
    rw [created.result]
    exact exists_lookup_insert .refl created.offer_stored honward ho
  | cancelRequest _ cancelled =>
    rw [cancelled.result]
    exact exists_lookup_insert .refl cancelled.offer_stored ⟨rfl, le_rfl, le_rfl⟩ ho
  | fulfillRequest _ fulfilled =>
    rw [fulfilled.outcome]
    exact exists_lookup_insert .refl fulfilled.offer_stored ⟨rfl, Nat.le_add_right _ _, le_rfl⟩ ho

theorem Effect.lasting (h : Effect env i w w') : Lasting w w' where
  offers := h.offers_last
  redemptionOffers := h.redemptionOffers_last
  accounts := fun _ ha => h.calls.hasAccount ha
  mints := by
    intro k
    have hfixed := congrArg (Option.map fun t => (t.1, t.2.1)) (h.calls.mint_fixed k)
    rwa [Option.map_map, Option.map_map] at hfixed

end Lasting

/-- Whoever signs what, over any run every offer and redemption offer stays, for the same mints
and on the same route and approval flags, the totals and counters of redemption offers only
grow, and no token account is closed. -/
theorem lasting_run (w₀ : World) (actions : List Action) : Lasting w₀ (run step w₀ actions) :=
  run_preserves (.refl w₀) (fun _ _ _ h hs => h.trans (execute_effect hs).lasting) actions

end OnreApp.Program
