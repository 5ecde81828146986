import OnreApp.Program.Effects
import OnreApp.Program.Genesis

/-!
# What nobody but the boss can change

The frame of every run that the boss does not sign: governance, pricing, the terms of the
redemption offers and the mint authorities stay, and the vaults pay only through takes and
resolved requests.
-/
namespace OnreApp.Program

open Library.FiniteStore Library.Outcome Library.Run Offers Redemption Tokens Utils

/-- What a redemption offer is agreed on, less its counters. -/
structure RedemptionTerms where
  offer : OfferPda
  tokenInMint : Pubkey
  tokenOutMint : Pubkey
  feeBasisPoints : UInt16
  deriving DecidableEq

def termsOf (o : RedemptionOffer) : RedemptionTerms :=
  ⟨o.offer, o.tokenInMint, o.tokenOutMint, o.feeBasisPoints⟩

/-- The action is not signed by the boss of the moment. -/
def NotBoss (w : World) (a : Action) : Prop :=
  ∀ s ∈ w.state, a.instruction.signer ≠ some s.boss

instance (w : World) (a : Action) : Decidable (NotBoss w a) :=
  inferInstanceAs (Decidable (∀ s ∈ w.state, a.instruction.signer ≠ some s.boss))

/-- How an instruction that the boss does not sign can change the state. -/
inductive StateChange (i : Instruction) (s : State) : State → Prop
  | same : StateChange i s s
  | kill {ctx : SetKillSwitch} (instr : i = .setKillSwitch ctx true)
    (admin : ctx.signer.key ∈ s.admins.toList) : StateChange i s { s with isKilled := true }
  | acceptBoss {ctx : AcceptBoss} (instr : i = .acceptBoss ctx)
    (proposed : ctx.newBoss.key = s.proposedBoss) :
    StateChange i s { s with boss := ctx.newBoss, proposedBoss := Pubkey.default }

/-- The instruction cancels an open request, or fulfills one as the redemption admin. -/
inductive Resolves (i : Instruction) (w : World) : Prop
  | cancel {ctx : CancelRedemptionRequest} {r : RedemptionRequest}
    (instr : i = .cancelRedemptionRequest ctx)
    (request : w.redemptionRequests.lookup ctx.redemptionRequest = some r) : Resolves i w
  | fulfill {ctx : FulfillRedemptionRequest} {r : RedemptionRequest} {s : State}
    (instr : i = .fulfillRedemptionRequest ctx)
    (request : w.redemptionRequests.lookup ctx.redemptionRequest = some r)
    (stored : w.state = some s) (admin : ctx.redemptionAdmin.key = s.redemptionAdmin) :
    Resolves i w

/-- The configuration stays, the kill switch only goes on, and the only new boss is the
proposed one. -/
structure GovernanceKept (s s' : State) : Prop where
  configuration :
    s' = { s with boss := s'.boss, proposedBoss := s'.proposedBoss, isKilled := s'.isKilled }
  killed : s.isKilled = true → s'.isKilled = true
  boss : s'.boss = s.boss ∧ s'.proposedBoss = s.proposedBoss ∨
    s'.boss.key = s.proposedBoss ∧ s'.proposedBoss = Pubkey.default

/-- Every redemption offer is still there, on the same terms. -/
def TermsKept (w w' : World) : Prop :=
  ∀ k o, w.redemptionOffers.lookup k = some o →
    ∃ o', w'.redemptionOffers.lookup k = some o' ∧ termsOf o' = termsOf o

/-- What every run keeps. -/
structure Frame (w w' : World) : Prop where
  state : ∃ s s', w.state = some s ∧ w'.state = some s' ∧ GovernanceKept s s'
  offers : w'.offers = w.offers
  redemptionOffers : TermsKept w w'
  mintAuthorities : ∀ k, w'.ledger.mintAuthority k = w.ledger.mintAuthority k

/-- What one action keeps, and by which actions the rest changes. -/
structure ActionFrame (a : Action) (w w' : World) : Prop extends Frame w w' where
  stateChange : ∃ s s', w.state = some s ∧ w'.state = some s' ∧ StateChange a.instruction s s'
  newRedemptionOffer : ∀ k, w.redemptionOffers.lookup k = none →
    w'.redemptionOffers.lookup k ≠ none → ∃ ctx fee s,
      a.instruction = .makeRedemptionOffer ctx fee ∧
      w.state = some s ∧ ctx.signer.key = s.redemptionAdmin
  offerVault : ∀ acc, acc.wallet = Seeds.offerVaultAuthority →
    w'.ledger.amount acc ≠ w.ledger.amount acc →
      step a w = .ok w' ∧ ∃ user, a.instruction.IsTake user
  redemptionVault : ∀ acc, acc.wallet = Seeds.redemptionOfferVaultAuthority →
    w'.ledger.amount acc < w.ledger.amount acc → step a w = .ok w' ∧ Resolves a.instruction w

/-! ## Frames compose -/

theorem GovernanceKept.refl (s : State) : GovernanceKept s s := ⟨rfl, id, .inl ⟨rfl, rfl⟩⟩

/-- A second change of boss would need the default key's signature. -/
theorem GovernanceKept.trans {s s₁ s₂ : State} (h : GovernanceKept s s₁)
    (h' : GovernanceKept s₁ s₂) : GovernanceKept s s₂ where
  configuration := by
    rw [h'.configuration, h.configuration]
  killed := fun hk => h'.killed (h.killed hk)
  boss := by
    rcases h'.boss with ⟨hb', hp'⟩ | ⟨hb', hp'⟩
    · rw [hb', hp']
      exact h.boss
    · rcases h.boss with ⟨_, hp⟩ | ⟨_, hp⟩
      · exact .inr ⟨hb'.trans hp, hp'⟩
      · exact absurd (hb'.trans hp) s₂.boss.nonzero

theorem StateChange.kept {i : Instruction} {s s' : State} (h : StateChange i s s') :
    GovernanceKept s s' := by
  cases h with
  | same => exact .refl s
  | kill => exact ⟨rfl, fun _ => rfl, .inl ⟨rfl, rfl⟩⟩
  | acceptBoss _ proposed => exact ⟨rfl, id, .inr ⟨proposed, rfl⟩⟩

theorem TermsKept.refl (w : World) : TermsKept w w := fun _ o ho => ⟨o, ho, rfl⟩

theorem TermsKept.trans {w w₁ w₂ : World} (h : TermsKept w w₁) (h' : TermsKept w₁ w₂) :
    TermsKept w w₂ := by
  intro k o ho
  obtain ⟨o₁, ho₁, ht₁⟩ := h k o ho
  obtain ⟨o₂, ho₂, ht₂⟩ := h' k o₁ ho₁
  exact ⟨o₂, ho₂, ht₂.trans ht₁⟩

theorem Frame.refl {w : World} {s : State} (hs : w.state = some s) : Frame w w where
  state := ⟨s, s, hs, hs, .refl s⟩
  offers := rfl
  redemptionOffers := .refl w
  mintAuthorities := fun _ => rfl

theorem Frame.trans {w w₁ w₂ : World} (h : Frame w w₁) (h' : Frame w₁ w₂) : Frame w w₂ where
  state := by
    obtain ⟨s, s₁, hs, hs₁, hkept⟩ := h.state
    obtain ⟨s₁', s₂, hs₁', hs₂, hkept'⟩ := h'.state
    obtain rfl : s₁ = s₁' := Option.some.inj (hs₁.symm.trans hs₁')
    exact ⟨s, s₂, hs, hs₂, hkept.trans hkept'⟩
  offers := h'.offers.trans h.offers
  redemptionOffers := h.redemptionOffers.trans h'.redemptionOffers
  mintAuthorities := fun k => (h'.mintAuthorities k).trans (h.mintAuthorities k)

/-! ## One action -/

section Actions

variable {a : Action} {w w' : World} {s s' : State}

/-- An action that writes nothing but the state. -/
theorem actionFrame_of_state (hs : w.state = some s) (hchange : StateChange a.instruction s s') :
    ActionFrame a w (w.setState s') where
  state := ⟨s, s', hs, rfl, hchange.kept⟩
  offers := rfl
  redemptionOffers := .refl w
  mintAuthorities := fun _ => rfl
  stateChange := ⟨s, s', hs, rfl, hchange⟩
  newRedemptionOffer := fun _ hnone hsome => absurd hnone hsome
  offerVault := fun _ _ hne => absurd rfl hne
  redemptionVault := fun _ _ hlt => absurd hlt (Nat.lt_irrefl _)

theorem ActionFrame.refl (hs : w.state = some s) : ActionFrame a w w where
  toFrame := .refl hs
  stateChange := ⟨s, s, hs, hs, .same⟩
  newRedemptionOffer := fun _ hnone hsome => absurd hnone hsome
  offerVault := fun _ _ hne => absurd rfl hne
  redemptionVault := fun _ _ hlt => absurd hlt (Nat.lt_irrefl _)

/-- An action that leaves the state and the offers, and moves tokens between known wallets. -/
theorem actionFrame_of_calls {debited credited : List Pubkey} (hs : w.state = some s)
    (hs' : w'.state = some s) (ho : w'.offers = w.offers) (hterms : TermsKept w w')
    (hnew : ∀ k, w.redemptionOffers.lookup k = none → w'.redemptionOffers.lookup k ≠ none →
      ∃ ctx fee s, a.instruction = .makeRedemptionOffer ctx fee ∧ w.state = some s ∧
        ctx.signer.key = s.redemptionAdmin)
    (hcalls : Calls (TokenCpi.Within debited credited) w.ledger w'.ledger)
    (hvault : Seeds.offerVaultAuthority ∈ debited ++ credited →
      step a w = .ok w' ∧ ∃ user, a.instruction.IsTake user)
    (hredemption : Seeds.redemptionOfferVaultAuthority ∈ debited →
      step a w = .ok w' ∧ Resolves a.instruction w) : ActionFrame a w w' where
  state := ⟨s, s, hs, hs', .refl s⟩
  offers := ho
  redemptionOffers := hterms
  mintAuthorities := hcalls.mintAuthority_eq_of_within
  stateChange := ⟨s, s, hs, hs', .same⟩
  newRedemptionOffer := hnew
  offerVault := by
    intro acc hacc hne
    by_cases hmem : Seeds.offerVaultAuthority ∈ debited ++ credited
    · exact hvault hmem
    · rw [← hacc, List.mem_append, not_or] at hmem
      exact absurd (hcalls.amount_eq_of_notMem hmem.1 hmem.2) hne
  redemptionVault := by
    intro acc hacc hlt
    by_cases hmem : Seeds.redemptionOfferVaultAuthority ∈ debited
    · exact hredemption hmem
    · rw [← hacc] at hmem
      exact absurd (hcalls.amount_le_of_notMem hmem) (Nat.not_le.mpr hlt)

/-- An action on one redemption offer's counters, for a wallet that is not the program's. -/
theorem actionFrame_of_counters {k : RedemptionOfferPda} {o n : RedemptionOffer}
    {debited credited : List Pubkey} (hs : w.state = some s) (hs' : w'.state = some s)
    (ho : w'.offers = w.offers) (hk : w.redemptionOffers.lookup k = some o)
    (hw : w'.redemptionOffers = w.redemptionOffers.insert k n) (ht : termsOf n = termsOf o)
    (hcalls : Calls (TokenCpi.Within debited credited) w.ledger w'.ledger)
    (hvault : Seeds.offerVaultAuthority ∉ debited ++ credited)
    (hredemption : Seeds.redemptionOfferVaultAuthority ∈ debited →
      step a w = .ok w' ∧ Resolves a.instruction w) : ActionFrame a w w' := by
  refine actionFrame_of_calls hs hs' ho ?_ ?_ hcalls (fun hmem => absurd hmem hvault) hredemption
  · intro k₁ o₁ ho₁
    rw [hw, lookup_insert_eq]
    by_cases he : k₁ = k
    · rw [he, hk] at ho₁
      rw [if_pos he]
      exact ⟨n, rfl, ht.trans (congrArg termsOf (Option.some.inj ho₁))⟩
    · rw [if_neg he]
      exact ⟨o₁, ho₁, rfl⟩
  · intro k₁ hnone hsome
    rw [hw, lookup_insert_eq] at hsome
    by_cases he : k₁ = k
    · rw [he, hk] at hnone
      cases hnone
    · rw [if_neg he] at hsome
      exact absurd hnone hsome

/-- The frame of a successful instruction that the boss does not sign, by its effect. -/
theorem Effect.actionFrame (h : Effect a.env a.instruction w w') (hs : w.state = some s)
    (hboss : NotBoss w a) (hstep : step a w = .ok w') : ActionFrame a w w' := by
  have hvaults : Seeds.offerVaultAuthority ≠ Seeds.redemptionOfferVaultAuthority := by decide
  cases h with
  | govern stored boss | close stored boss | namePermissionless stored boss
  | makeOffer stored boss | editOffer stored boss | deposit stored boss | withdraw stored boss
  | mintTo stored boss | setMintAuthority stored boss
  | updateRedemptionOfferFee _ stored boss => exact absurd boss (hboss _ stored)
  | view => exact .refl hs
  | initialized _ uninitialized =>
    rw [hs] at uninitialized
    cases uninitialized
  | acceptBoss instr stored proposed =>
    exact actionFrame_of_state stored (.acceptBoss instr proposed)
  | kill instr stored admin => exact actionFrame_of_state stored (.kill instr admin)
  | @take s₁ user l instr stored ledger =>
    refine actionFrame_of_calls stored stored rfl (.refl w)
      (fun _ hnone hsome => absurd hnone hsome) ledger.calls (fun _ => ⟨hstep, user, instr⟩)
      fun hmem => ?_
    have huser := user.ne_authority (a := Seeds.redemptionOfferVaultAuthority) (by decide)
    rcases List.mem_cons.mp hmem with he | hmem
    · exact absurd he.symm huser
    · exact absurd hmem (by decide)
  | @makeRedemptionOffer ctx fee s₁ l₁ l₂ instr stored authorized fresh vaultIn vaultOut =>
    have hcalls : Calls (TokenCpi.Within [] []) w.ledger l₂ :=
      (Calls.of_initIfNeeded vaultIn).trans (.of_initIfNeeded vaultOut)
    refine actionFrame_of_calls stored stored rfl ?_ ?_ hcalls (fun hmem => nomatch hmem)
      fun hmem => nomatch hmem
    · intro k o ho
      exact ⟨o, lookup_insert_of_fresh fresh ho, rfl⟩
    · intro k hnone hsome
      refine ⟨ctx, fee, s₁, instr, stored, authorized.resolve_left fun he => ?_⟩
      refine hboss s₁ stored ?_
      rw [instr, ← he]
      rfl
  | @createRequest ctx amount s₁ o l _ instr created =>
    have hcalls := created.calls.mono fun _ hc => hc.within
    have hkey := fun k hk => (ctx.redeemer.ne_authority (a := k) hk).symm
    obtain rfl := created.result
    refine actionFrame_of_counters created.state_stored created.state_stored rfl
      created.offer_stored rfl rfl hcalls ?_ fun hmem => ?_
    · show _ ∉ [ctx.redeemer.key, Seeds.redemptionOfferVaultAuthority]
      simp [hkey Seeds.offerVaultAuthority (by decide), hvaults]
    · exact absurd (List.mem_singleton.mp hmem) (hkey _ (by decide))
  | @cancelRequest ctx s₁ o r l₁ l₂ _ instr cancelled =>
    have hcalls := cancelled.calls.mono fun _ hc => hc.within
    have hkey := r.redeemer.ne_authority (a := Seeds.offerVaultAuthority) (by decide)
    obtain rfl := cancelled.result
    refine actionFrame_of_counters cancelled.state_stored cancelled.state_stored rfl
      cancelled.offer_stored rfl rfl hcalls ?_
      fun _ => ⟨hstep, .cancel instr cancelled.request_stored⟩
    show _ ∉ [Seeds.redemptionOfferVaultAuthority, ctx.redeemer]
    rw [cancelled.redeemer]
    simp [hkey.symm, hvaults]
  | @fulfillRequest ctx s₁ offer o r tokenIn tokenOut result l₁ l₂ l₃ _ instr fulfilled =>
    have hcalls := fulfilled.calls
    have hkey := r.redeemer.ne_authority (a := Seeds.offerVaultAuthority) (by decide)
    have hbossKey := s₁.boss.ne_authority (a := Seeds.offerVaultAuthority) (by decide)
    obtain rfl := fulfilled.outcome
    refine actionFrame_of_counters fulfilled.state_stored fulfilled.state_stored rfl
      fulfilled.offer_stored rfl rfl hcalls ?_ fun _ => ⟨hstep,
        .fulfill instr fulfilled.request_stored fulfilled.state_stored fulfilled.authorized⟩
    show _ ∉ [Seeds.redemptionOfferVaultAuthority, ctx.boss, ctx.redeemer]
    rw [fulfilled.redeemer, ← fulfilled.boss]
    simp [hkey.symm, hbossKey.symm, hvaults]

theorem exec_actionFrame (hs : w.state = some s) (hboss : NotBoss w a) :
    ActionFrame a w (exec step w a) := by
  cases hstep : step a w with
  | ok w' =>
    rw [exec_ok hstep]
    exact (execute_effect hstep).actionFrame hs hboss hstep
  | error e =>
    rw [exec_error hstep]
    exact .refl hs

end Actions

/-! ## Runs -/

/-- A run that the boss of each moment does not sign keeps governance, pricing and the terms
of redemption, action by action and as a whole. -/
theorem unprivileged_run {w : World} {s : State} {actions : List Action} (hs : w.state = some s)
    (h : Along step NotBoss w actions) :
    Frame w (run step w actions) ∧
      ∀ pre a post, actions = pre ++ a :: post →
        ActionFrame a (run step w pre) (exec step (run step w pre) a) := by
  have hframe : ∀ {as : List Action}, Along step NotBoss w as → Frame w (run step w as) := by
    intro as has
    refine run_invariant (P := Frame w) (fun a w₁ w₂ hw hboss hstep => ?_) (.refl hs) has
    obtain ⟨_, s₁, _, hs₁, _⟩ := hw.state
    exact hw.trans ((execute_effect hstep).actionFrame hs₁ hboss hstep).toFrame
  refine ⟨hframe h, fun pre a post he => ?_⟩
  have hboss := along_iff.mp h pre a post he
  rw [he] at h
  obtain ⟨_, s₁, _, hs₁, _⟩ := (hframe h.prefix).state
  exact exec_actionFrame hs₁ hboss

/-- Requests and a fulfillment, none of them signed by the boss: the redemption vault ends
with 0.1 USDC, less than before the fulfillment. -/
theorem unprivileged_run_sample :
    let w := run step (World.genesis (Sample.ledger Sample.issuer)) Sample.setup
    let w₁ := run step w [Sample.aliceRequests, Sample.bobRequests]
    let w₂ := exec step w₁ Sample.fulfillAlice
    Frame w (run step w [Sample.aliceRequests, Sample.bobRequests, Sample.fulfillAlice]) ∧
      ActionFrame Sample.fulfillAlice w₁ w₂ ∧
      w₂.ledger.amount (redemptionVault Sample.usdc .token) = 100000 := by
  intro w w₁ w₂
  obtain ⟨s, hs⟩ : ∃ s, w.state = some s := Option.isSome_iff_exists.mp (by decide +kernel)
  have hboss : Along step NotBoss w
      [Sample.aliceRequests, Sample.bobRequests, Sample.fulfillAlice] := by decide +kernel
  obtain ⟨hframe, hactions⟩ := unprivileged_run hs hboss
  exact ⟨hframe, hactions [Sample.aliceRequests, Sample.bobRequests] Sample.fulfillAlice [] rfl,
    by decide +kernel⟩

end OnreApp.Program
