import OnreApp.Offers.TakeOrder
import OnreApp.Program.Spending
import OnreApp.Redemption.Exit

/-!
# What outsiders cannot take away

A run signed by nobody who holds a role, or is offered one, and not by a given user either. It
can use up what the program pays from, and nothing else that the user relies on: the user's take
still goes through while there is something to pay it with, and the user's requests stay open
with their way out.
-/
namespace OnreApp.Program

open Library.FiniteStore Library.Outcome Library.Run Offers Redemption Tokens Utils

/-- The keys that may sign more than any user. -/
def roles (s : State) : List Pubkey :=
  s.boss.key :: s.proposedBoss :: s.redemptionAdmin :: s.admins.toList

/-- The action is not `u`'s, and nobody with a role of the moment signs it. -/
def Outsider (u : Signer) (w : World) (a : Action) : Prop :=
  ∀ signer ∈ a.instruction.signer, signer ≠ u ∧ ∀ s ∈ w.state, signer.key ∉ roles s

instance (u : Signer) (w : World) (a : Action) : Decidable (Outsider u w a) :=
  inferInstanceAs (Decidable (∀ signer ∈ a.instruction.signer, _))

/-- What `u` relies on. -/
structure Undisturbed (u : Signer) (w w' : World) : Prop where
  state : w'.state = w.state
  offers : w'.offers = w.offers
  mints : ∀ m, (w'.ledger.mints.lookup m).map Mint.terms =
    (w.ledger.mints.lookup m).map Mint.terms
  accounts : ∀ a, w.ledger.HasAccount a → w'.ledger.HasAccount a
  balances : ∀ a, a.wallet = u.key → w.ledger.amount a ≤ w'.ledger.amount a
  requests : ∀ q r, w.redemptionRequests.lookup q = some r → r.redeemer = u →
    w'.redemptionRequests.lookup q = some r

theorem Undisturbed.refl (u : Signer) (w : World) : Undisturbed u w w :=
  ⟨rfl, rfl, fun _ => rfl, fun _ ha => ha, fun _ _ => le_rfl, fun _ _ hr _ => hr⟩

theorem Undisturbed.trans {u : Signer} {w w₁ w₂ : World} (h : Undisturbed u w w₁)
    (h' : Undisturbed u w₁ w₂) : Undisturbed u w w₂ where
  state := h'.state.trans h.state
  offers := h'.offers.trans h.offers
  mints := fun m => (h'.mints m).trans (h.mints m)
  accounts := fun a ha => h'.accounts a (h.accounts a ha)
  balances := fun a ha => (h.balances a ha).trans (h'.balances a ha)
  requests := fun q r hr hu => h'.requests q r (h.requests q r hr hu) hu

/-! ## One action -/

section Step

variable {u : Signer} {a : Action} {w w' : World} {s : State}

/-- What an outsider's success can be. -/
inductive OutsiderEffect (a : Action) (w : World) : World → Prop
  | none : OutsiderEffect a w w
  | take {user : Signer} {s : State} {l : Ledger} (instr : a.instruction.IsTake user)
    (ledger : TakenLedger user.key s w.ledger l) : OutsiderEffect a w (w.setLedger l)
  | create {ctx : CreateRedemptionRequest} {amount : UInt64} {w' : World} {s : State}
    {o : RedemptionOffer} {l : Ledger}
    (created : RequestCreated a.env ctx amount w w' s o l) : OutsiderEffect a w w'
  | cancel {ctx : CancelRedemptionRequest} {w' : World} {s : State} {o : RedemptionOffer}
    {r : RedemptionRequest} {l₁ l₂ : Ledger}
    (cancelled : RequestCancelled a.env ctx w w' s o r l₁ l₂)
    (own : a.instruction.signer = some r.redeemer) : OutsiderEffect a w w'

/-- Views, takes, requests and the cancellation of one's own request are all that is left. -/
theorem Outsider.effect (h : Outsider u w a) (hstored : w.state = some s) (hs : step a w = .ok w') :
    OutsiderEffect a w w' := by
  have hrole : ∀ {s' : State} {signer : Signer}, w.state = some s' →
      a.instruction.signer = some signer → signer.key ∈ roles s' → OutsiderEffect a w w' :=
    fun hs' hsigner hmem => absurd hmem ((h _ hsigner).2 _ hs')
  have hboss : ∀ {s' : State}, w.state = some s' → a.instruction.signer = some s'.boss →
      OutsiderEffect a w w' := fun hs' hsigner => hrole hs' hsigner List.mem_cons_self
  cases execute_effect hs with
  | view => exact .none
  | initialized _ uninitialized =>
    rw [hstored] at uninitialized
    cases uninitialized
  | govern stored boss | close stored boss | namePermissionless stored boss
  | makeOffer stored boss | editOffer stored boss | deposit stored boss | withdraw stored boss
  | mintTo stored boss | setMintAuthority stored boss
  | updateRedemptionOfferFee _ stored boss => exact hboss stored boss
  | acceptBoss instr stored proposed =>
    refine hrole stored (by rw [instr]; rfl) ?_
    simp [roles, proposed]
  | kill instr stored admin =>
    refine hrole stored (by rw [instr]; rfl) ?_
    simp [roles, admin]
  | makeRedemptionOffer instr stored authorized =>
    refine hrole stored (by rw [instr]; rfl) ?_
    rcases authorized with he | he <;> simp [roles, he]
  | take instr _ ledger => exact .take instr ledger
  | createRequest _ created => exact .create created
  | cancelRequest instr cancelled =>
    rcases cancelled.authorized with he | he | he
    · exact hboss cancelled.state_stored (by rw [instr, ← he]; rfl)
    · refine hrole cancelled.state_stored (by rw [instr]; rfl) ?_
      simp [roles, he]
    · exact .cancel cancelled (by rw [instr, ← he]; rfl)
  | fulfillRequest instr fulfilled =>
    refine hrole fulfilled.state_stored (by rw [instr]; rfl) ?_
    simp [roles, fulfilled.authorized]

theorem Outsider.spends_eq_zero (h : Outsider u w a) (mint : Pubkey) :
    a.instruction.spends u.key mint = 0 := by
  have hother : ∀ {signer : Signer}, a.instruction.signer = some signer → ¬ signer.key = u.key :=
    fun hsigner he => (h _ hsigner).1 (ExternalKey.ext he)
  obtain ⟨env, i⟩ := a
  cases i with
  | takeOffer | takeOfferPermissionless | createRedemptionRequest | offerVaultDeposit
  | redemptionVaultDeposit => exact if_neg fun he => hother rfl he.1
  | _ => rfl

/-- An outsider's success leaves what the user relies on. -/
theorem Outsider.undisturbed (h : Outsider u w a) (hstored : w.state = some s)
    (hs : step a w = .ok w') : Undisturbed u w w' := by
  have hexecute : execute a.env a.instruction w = .ok w' := hs
  have hcalls := (execute_effect hexecute).calls
  have hbalances : ∀ acc, acc.wallet = u.key → w.ledger.amount acc ≤ w'.ledger.amount acc := by
    intro acc hacc
    have hcost := execute_costs (a := acc) hexecute (hacc ▸ u.external)
    rwa [hacc, h.spends_eq_zero, Nat.add_zero] at hcost
  cases h.effect hstored hs with
  | none => exact .refl u w
  | take _ ledger =>
    exact ⟨rfl, rfl, ledger.calls.terms_eq_of_within, fun _ ha => hcalls.hasAccount ha, hbalances,
      fun _ _ hr _ => hr⟩
  | create created =>
    have hwithin := created.calls.mono fun _ hc => hc.within
    obtain rfl := created.result
    refine ⟨rfl, rfl, hwithin.terms_eq_of_within, fun _ ha => hcalls.hasAccount ha, hbalances, ?_⟩
    intro q r hr _
    exact lookup_insert_of_fresh created.fresh hr
  | @cancel ctx _ _ _ r₀ _ _ cancelled own =>
    have hwithin := cancelled.calls.mono fun _ hc => hc.within
    obtain rfl := cancelled.result
    refine ⟨rfl, rfl, hwithin.terms_eq_of_within, fun _ ha => hcalls.hasAccount ha, hbalances, ?_⟩
    intro q r hr hu
    -- The request cancelled is the signer's, and the signer is somebody else.
    have hne : q ≠ ctx.redemptionRequest := by
      intro he
      rw [he] at hr
      obtain rfl : r = r₀ := Option.some.inj (hr.symm.trans cancelled.request_stored)
      exact (h _ own).1 hu
    exact (lookup_erase_eq _ _ _).trans ((if_neg hne).trans hr)

end Step

/-! ## Runs -/

theorem undisturbed_run {u : Signer} {w₀ : World} {s : State} {actions : List Action}
    (hs : w₀.state = some s) (h : Along step (Outsider u) w₀ actions) :
    Undisturbed u w₀ (run step w₀ actions) := by
  refine run_invariant (P := Undisturbed u w₀) (fun a w w' hw hout hstep => ?_) (.refl u w₀) h
  exact hw.trans (hout.undisturbed (hw.state.trans hs) hstep)

/-- What the program pays a take from: room to mint, or tokens in the offer vault. -/
structure Backed (t : Take) (w : World) (result : OfferProcessResult) : Prop where
  mint : w.ledger.mintAuthority t.ctx.tokenOutMint = some Seeds.mintAuthority →
    (∀ s, w.state = some s → 0 < s.maxSupply →
      w.ledger.supply t.ctx.tokenOutMint + result.tokenOutAmount.toNat ≤ s.maxSupply.toNat) ∧
    w.ledger.supply t.ctx.tokenOutMint + result.tokenOutAmount.toNat < 2 ^ 64
  vault : w.ledger.mintAuthority t.ctx.tokenOutMint ≠ some Seeds.mintAuthority →
    result.tokenOutAmount.toNat ≤ w.ledger.amount t.vaultOut

/-- A user who could take before outsiders acted, on either route, can afterwards exactly if
there is still something to pay the take from. -/
theorem take_survives_outsiders {t : Take} {w₀ : World} {result : OfferProcessResult}
    {actions : List Action} (hmints : t.ctx.tokenInMint ≠ t.ctx.tokenOutMint)
    (hc : t.Cleared w₀ result) (hheld : t.amount.toNat ≤ w₀.ledger.amount t.userIn)
    (h : Along step (Outsider t.ctx.user) w₀ actions) :
    (∃ w', t.execute (run step w₀ actions) = .ok w') ↔
      Backed t (run step w₀ actions) result := by
  obtain ⟨_, s, _, _, _, hchecks, _⟩ := id hc
  have hrun := undisturbed_run hchecks.state_stored h
  have hcleared : t.Cleared (run step w₀ actions) result :=
    hc.keep ⟨hrun.state, hrun.offers, hrun.mints, fun a _ => hrun.accounts a⟩ hmints
  rw [Take.execute_ok_iff hmints]
  constructor
  · intro hok
    obtain ⟨result', hcleared', hafford⟩ := hok
    obtain rfl := hcleared.unique hcleared'
    exact ⟨hafford.mint, hafford.vault⟩
  · intro hbacked
    exact ⟨result, hcleared, hheld.trans (hrun.balances t.userIn rfl), hbacked.mint, hbacked.vault⟩

/-- Bob takes nearly all that the vault holds, and what is left does not pay Alice's take. -/
theorem take_survives_outsiders_late :
    let w := run step (World.genesis (Sample.ledger Sample.issuer)) (Sample.market false)
    let t : Take := ⟨Sample.env 1000, Sample.aliceTakes.toTakeOffer, 1000, none, .direct⟩
    let bobTakes := Sample.act
      (.takeOffer { Sample.aliceTakes.toTakeOffer with user := Sample.bob } 499500 none)
    (∃ w', t.execute w = .ok w') ∧ ¬ ∃ w', t.execute (run step w [bobTakes]) = .ok w' := by
  intro w t bobTakes
  have hmints : t.ctx.tokenInMint ≠ t.ctx.tokenOutMint := by decide
  obtain ⟨w', h⟩ : ∃ w', t.execute w = .ok w' := exists_ok_of_toBool (by decide +kernel)
  refine ⟨⟨w', h⟩, ?_⟩
  obtain ⟨result, hc, hafford, _⟩ := Take.execute_spec hmints h
  have hout : Along step (Outsider t.ctx.user) w [bobTakes] := by decide +kernel
  have hworth : result.tokenOutAmount.toNat = 1000000 := by
    rw [← hc.out_eq]
    decide +kernel
  have hleft : (run step w [bobTakes]).ledger.amount t.vaultOut = 500000 := by decide +kernel
  have hvault : (run step w [bobTakes]).ledger.mintAuthority t.ctx.tokenOutMint ≠
      some Seeds.mintAuthority := by decide +kernel
  rw [take_survives_outsiders hmints hc hafford.held hout]
  intro hbacked
  have hle := hbacked.vault hvault
  rw [hworth, hleft] at hle
  omega

end OnreApp.Program
