import OnreApp.Redemption.Resolution
import OnreApp.Redemption.Solvency

/-!
# Withdrawals and what requests have locked

The counters of the redemption offers for one `token_in` add up to what its open requests
have locked. A withdrawal by the boss takes what it is told from the vault account that holds
this, and looks at no counter: it leaves the requests covered exactly if it takes no more
than the rest.
-/
namespace OnreApp.Redemption

open Library.FiniteStore Library.Run Program Tokens Utils

/-- The `requested_redemptions` of all redemption offers that take `mint` in. -/
def requestedFor (offers : Store RedemptionOfferPda RedemptionOffer) (mint : Pubkey) : ℕ :=
  total offers fun _ o => if o.tokenInMint = mint then o.requestedRedemptions else 0

section Fibers

variable {offers : Store RedemptionOfferPda RedemptionOffer}
  {requests : Store RedemptionRequestPda RedemptionRequest} (k : RedemptionOfferPda) (mint : Pubkey)

/-- What an offer adds for its mint is its counter. -/
theorem weigh_requested (hinv : ∀ o, offers.lookup k = some o → Inverts k o) :
    weigh (fun _ o => if o.tokenInMint = mint then o.requestedRedemptions else 0) offers k =
      if k.tokenInMint = mint then fieldOf offers (·.requestedRedemptions) k else 0 := by
  unfold weigh fieldOf
  cases ho : offers.lookup k with
  | none => exact (ite_self 0).symm
  | some o =>
    have htokenIn : k.tokenInMint = o.tokenInMint :=
      congrArg RedemptionOfferPda.tokenInMint (hinv o ho).seeds
    rw [htokenIn]
    rfl

/-- What the requests of an offer add for its mint is what they have open. -/
theorem total_requests_of_offer :
    (total requests fun _ r =>
      if r.offer = k then if r.offer.tokenInMint = mint then r.amount.toNat else 0 else 0) =
      if k.tokenInMint = mint then openAmount requests k else 0 := by
  have hpoint : (fun (_ : RedemptionRequestPda) (r : RedemptionRequest) =>
      if r.offer = k then if r.offer.tokenInMint = mint then r.amount.toNat else 0 else 0) =
      fun _ r => if k.tokenInMint = mint then if r.offer = k then r.amount.toNat else 0 else 0 := by
    funext _ r
    by_cases hr : r.offer = k
    · rw [if_pos hr, if_pos hr, hr]
    · rw [if_neg hr, if_neg hr, ite_self]
  rw [hpoint]
  by_cases hk : k.tokenInMint = mint
  · simp only [if_pos hk]
    rfl
  · simp only [if_neg hk, total]
    exact Finset.sum_eq_zero fun p _ => by unfold weigh; cases requests.lookup p <;> rfl

end Fibers

/-- The counters of a mint add up to what the open requests of the mint have locked. -/
theorem requestedFor_eq_lockedAmount (l : Ledger) (actions : List Action) (mint : Pubkey) :
    requestedFor (run step (World.genesis l) actions).redemptionOffers mint =
      lockedAmount (run step (World.genesis l) actions).redemptionRequests mint := by
  apply total_eq_of_fibers fun _ r => r.offer
  intro k
  have hrequested : fieldOf (run step (World.genesis l) actions).redemptionOffers
      (·.requestedRedemptions) k =
        openAmount (run step (World.genesis l) actions).redemptionRequests k :=
    (balanced_run (noRedemptions_genesis l) actions).requested k
  rw [weigh_requested k mint fun o ho => inverts_run l actions ho, total_requests_of_offer,
    hrequested]

/-- A withdrawal lowers the vault's balance of its mint by what it takes, and writes none of
the program's accounts. -/
theorem redemptionVaultWithdraw_ok {env : Env} {ctx : VaultAccounts} {amount : UInt64}
    {w w' : World} (h : redemptionVaultWithdraw env ctx amount w = .ok w') :
    (∀ m, vaultBalance w'.ledger m + (if m = ctx.tokenMint then amount.toNat else 0) =
      vaultBalance w.ledger m) ∧
      w'.redemptionOffers = w.redemptionOffers ∧ w'.redemptionRequests = w.redemptionRequests := by
  obtain ⟨s, l₁, l₂, _, _, hinit, htransfer, rfl⟩ := vaultWithdraw_ok h
  refine ⟨fun m => ?_, rfl, rfl⟩
  obtain ⟨hcan, _⟩ := transferTokens_eq_ok.mp htransfer
  have hcalls : Calls (fun _ => True) l₁ l₂ := transferTokens_calls htransfer trivial
  have hdebit := vaultBalance_debit (m := m) hcalls hcan.1 fun a ha =>
    transferTokens_debit htransfer fun he =>
      ctx.boss.ne_authority vaultAuthority_mem ((congrArg Ata.wallet he).symm.trans ha)
  rw [vaultBalance_initIfNeeded hinit] at hdebit
  exact hdebit

/-- In every reachable state, a withdrawal leaves the vault covering the counters of its mint
exactly if it takes no more than what the vault holds beyond them. The counters are the open
requests, so each of these then finds its amount in the vault. -/
theorem withdrawal_keeps_cover_iff (l : Ledger) (actions : List Action) (env : Env)
    (ctx : VaultAccounts) (amount : UInt64) (w' : World)
    (h : redemptionVaultWithdraw env ctx amount (run step (World.genesis l) actions) = .ok w') :
    (requestedFor w'.redemptionOffers ctx.tokenMint ≤ vaultBalance w'.ledger ctx.tokenMint ↔
      requestedFor (run step (World.genesis l) actions).redemptionOffers ctx.tokenMint +
        amount.toNat ≤
          vaultBalance (run step (World.genesis l) actions).ledger ctx.tokenMint) ∧
    requestedFor w'.redemptionOffers ctx.tokenMint =
      lockedAmount w'.redemptionRequests ctx.tokenMint ∧
    (requestedFor w'.redemptionOffers ctx.tokenMint ≤ vaultBalance w'.ledger ctx.tokenMint →
      ∀ q r, w'.redemptionRequests.lookup q = some r → r.offer.tokenInMint = ctx.tokenMint →
        r.amount.toNat ≤ vaultBalance w'.ledger ctx.tokenMint) := by
  obtain ⟨hbalance, hoffers, hrequests⟩ := redemptionVaultWithdraw_ok h
  have hmint := hbalance ctx.tokenMint
  rw [if_pos rfl] at hmint
  have hlocked := requestedFor_eq_lockedAmount l actions ctx.tokenMint
  rw [hoffers, hrequests]
  refine ⟨?_, hlocked, ?_⟩
  · constructor
    · intro hcover
      omega
    · intro hspare
      omega
  · intro hcover q r hr htokenIn
    rw [hlocked] at hcover
    have hle := le_total hr fun _ r =>
      if r.offer.tokenInMint = ctx.tokenMint then r.amount.toNat else 0
    rw [if_pos htokenIn] at hle
    exact Nat.le_trans hle hcover

/-- The boss puts 7 units of ONyc beside Alice's request and takes them out again: what Alice
has locked stays. -/
theorem withdrawal_keeps_cover_iff_sample :
    let actions := Sample.setup ++ [Sample.aliceRequests,
      Sample.act (.redemptionVaultDeposit ⟨Sample.onyc, .token, Sample.boss⟩ 7)]
    ∃ w', redemptionVaultWithdraw (Sample.env 1000) ⟨Sample.onyc, .token, Sample.boss⟩ 7
        (run step (World.genesis (Sample.ledger Sample.issuer)) actions) = .ok w' ∧
      requestedFor w'.redemptionOffers Sample.onyc ≤ vaultBalance w'.ledger Sample.onyc := by
  intro actions
  obtain ⟨w', hw⟩ : ∃ w', redemptionVaultWithdraw (Sample.env 1000)
      ⟨Sample.onyc, .token, Sample.boss⟩ 7
        (run step (World.genesis (Sample.ledger Sample.issuer)) actions) = .ok w' :=
    Library.Outcome.exists_ok_of_toBool (by decide +kernel)
  exact ⟨w', hw, (withdrawal_keeps_cover_iff _ _ _ _ _ _ hw).1.mpr (by decide +kernel)⟩

/-- With nothing beside Alice's request in the vault, the boss takes one unit out of it. -/
theorem withdrawal_takes_locked :
    ¬ ∀ (l : Ledger) (actions : List Action) (env : Env) (ctx : VaultAccounts) (amount : UInt64)
      (w' : World),
      requestedFor (run step (World.genesis l) actions).redemptionOffers ctx.tokenMint ≤
        vaultBalance (run step (World.genesis l) actions).ledger ctx.tokenMint →
      redemptionVaultWithdraw env ctx amount (run step (World.genesis l) actions) = .ok w' →
      requestedFor w'.redemptionOffers ctx.tokenMint ≤ vaultBalance w'.ledger ctx.tokenMint := by
  intro h
  obtain ⟨w', hw, hafter⟩ : ∃ w', redemptionVaultWithdraw (Sample.env 1000)
      ⟨Sample.onyc, .token, Sample.boss⟩ 1 (run step (World.genesis (Sample.ledger Sample.issuer))
        (Sample.setup ++ [Sample.aliceRequests])) = .ok w' ∧
      decide (requestedFor w'.redemptionOffers Sample.onyc ≤ vaultBalance w'.ledger Sample.onyc) =
        false := Library.Outcome.exists_ok_of_map (by decide +kernel)
  have hcover := h _ _ _ ⟨Sample.onyc, .token, Sample.boss⟩ 1 w' (by decide +kernel) hw
  exact of_decide_eq_false hafter hcover

end OnreApp.Redemption
