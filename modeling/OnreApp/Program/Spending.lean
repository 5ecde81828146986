import OnreApp.Program.BooksReplay

/-!
# What a signature can cost

Tokens leave a wallet only through what its owner signs, and no more of them than the amounts
named there: whatever anybody else does in between, and with transfer fees or without.
-/
namespace OnreApp.Program

open Library.Balance Library.Log Library.Outcome Library.Run Offers Redemption Tokens Utils

/-- The most that `wallet`, signing the instruction, can lose of a mint by it. -/
def Instruction.spends (wallet mint : Pubkey) : Instruction → ℕ
  | .takeOffer ctx amount _ =>
    if ctx.user.key = wallet ∧ ctx.tokenInMint = mint then amount.toNat else 0
  | .takeOfferPermissionless ctx amount _ =>
    if ctx.user.key = wallet ∧ ctx.tokenInMint = mint then amount.toNat else 0
  | .createRedemptionRequest ctx amount =>
    if ctx.redeemer.key = wallet ∧ ctx.tokenInMint = mint then amount.toNat else 0
  | .offerVaultDeposit ctx amount | .redemptionVaultDeposit ctx amount =>
    if ctx.boss.key = wallet ∧ ctx.tokenMint = mint then amount.toNat else 0
  | _ => 0

section Step

variable {env : Env} {i : Instruction} {w w' : World} {a : Ata}

/-- A transfer costs its source its amount at most. -/
theorem transferTokens_costs {epoch : UInt64} {source destination : Ata} {authority : Pubkey}
    {amount : UInt64} {l l' : Ledger}
    (h : transferTokens epoch source destination authority amount l = .ok l') (a : Ata) :
    l.amount a ≤ l'.amount a + if a = source then amount.toNat else 0 := by
  by_cases ha : a = destination
  · obtain ⟨hc, rfl⟩ := transferTokens_eq_ok.mp h
    rw [Ledger.amount_transfer hc, if_pos ha, ha]
    split <;> omega
  · exact (transferTokens_debit h ha).ge

theorem TakeMoves.costs {ctx : TakeOffer} {amount : UInt64} (h : TakeMoves ctx amount env w w')
    (ha : a.wallet ∉ programAuthorities) :
    w.ledger.amount a ≤ w'.ledger.amount a +
      if ctx.user.key = a.wallet ∧ ctx.tokenInMint = a.mint then amount.toNat else 0 := by
  obtain ⟨result, s, hquote, _, hmoves⟩ := h
  obtain ⟨_, _, _, _, _, _, hpriced⟩ := takeQuote_eq_ok.mp hquote
  have htotal := processOfferCore_total hpriced
  have hflow := hmoves.balances.apply a
  have hvault : a ≠ (booksOf w.ledger).account Seeds.offerVaultAuthority ctx.tokenOutMint := by
    intro he
    have hmem : Seeds.offerVaultAuthority ∈ programAuthorities := by decide
    exact ha (he ▸ hmem)
  simp only [exchange, Pi.add_apply, Pi.single_eq_of_ne hvault, add_zero, htotal] at hflow
  by_cases hpayer : a = (booksOf w.ledger).account ctx.user.key ctx.tokenInMint
  · rw [if_pos ⟨by rw [hpayer]; rfl, by rw [hpayer]; rfl⟩]
    rw [hpayer, Pi.single_eq_same] at hflow
    rw [hpayer]
    omega
  · rw [Pi.single_eq_of_ne hpayer] at hflow
    omega

theorem vaultDeposit_costs {authority : Pubkey} {ctx : VaultAccounts} {amount : UInt64}
    (h : vaultDeposit authority env ctx amount w = .ok w') :
    w.ledger.amount a ≤ w'.ledger.amount a +
      if ctx.boss.key = a.wallet ∧ ctx.tokenMint = a.mint then amount.toNat else 0 := by
  obtain ⟨s, l, l', _, _, hinit, htransfer, rfl⟩ := vaultDeposit_ok h
  have hopen : Calls (fun _ => False) w.ledger l := .of_initIfNeeded hinit
  have hcost := transferTokens_costs htransfer a
  rw [hopen.amount_eq fun _ hc => hc.elim] at hcost
  show _ ≤ l'.amount a + _
  split at hcost
  · next he =>
    rw [he, if_pos ⟨rfl, rfl⟩, ← he]
    exact hcost
  · omega

theorem vaultWithdraw_costs {authority : Pubkey} {ctx : VaultAccounts} {amount : UInt64}
    (h : vaultWithdraw authority env ctx amount w = .ok w') (ha : a.wallet ≠ authority) :
    w.ledger.amount a ≤ w'.ledger.amount a := by
  obtain ⟨_, l, l', _, _, hinit, htransfer, rfl⟩ := vaultWithdraw_ok h
  have hopen : Calls (fun _ => False) w.ledger l := .of_initIfNeeded hinit
  have hcost := transferTokens_costs htransfer a
  rw [hopen.amount_eq fun _ hc => hc.elim, if_neg fun he => ha (congrArg Ata.wallet he)] at hcost
  exact hcost

/-- Every success takes from a wallet at most what its owner signed for. -/
theorem execute_costs (h : execute env i w = .ok w') (ha : a.wallet ∉ programAuthorities) :
    w.ledger.amount a ≤ w'.ledger.amount a + i.spends a.wallet a.mint := by
  have hoffers : a.wallet ≠ Seeds.offerVaultAuthority := fun he => ha (by rw [he]; decide)
  have hredemptions : a.wallet ≠ Seeds.redemptionOfferVaultAuthority :=
    fun he => ha (by rw [he]; decide)
  cases i with
  | takeOffer => exact (takeOffer_moves h).costs ha
  | takeOfferPermissionless => exact (takeOfferPermissionless_moves h).costs ha
  | offerVaultDeposit | redemptionVaultDeposit => exact vaultDeposit_costs h
  | createRedemptionRequest ctx amount =>
    obtain ⟨_, _, l, hc⟩ := createRedemptionRequest_ok h
    have hcost := transferTokens_costs hc.locked a
    have hledger : w'.ledger = l := by rw [hc.result]
    rw [hledger]
    split at hcost
    · next he =>
      rw [he] at hcost ⊢
      rwa [Instruction.spends, if_pos ⟨rfl, rfl⟩]
    · omega
  | offerVaultWithdraw => exact vaultWithdraw_costs h hoffers
  | redemptionVaultWithdraw => exact vaultWithdraw_costs h hredemptions
  | mintTo =>
    have hflow := (mintTo_moves h).balances.apply a
    simp only [Movement.issue, Pi.zero_apply] at hflow
    omega
  | cancelRedemptionRequest ctx =>
    obtain ⟨_, _, _, _, l, hc⟩ := cancelRedemptionRequest_ok h
    have hledger : w'.ledger = l := by rw [hc.result]
    have hcalls := hc.calls.mono fun _ hm => hm.within
    rw [hledger]
    exact (hcalls.amount_le_of_notMem (by simp [hredemptions])).trans (Nat.le_add_right _ _)
  | fulfillRedemptionRequest ctx =>
    obtain ⟨_, _, _, _, _, _, _, _, _, l, hf⟩ := fulfillRedemptionRequest_ok h
    have hledger : w'.ledger = l := by rw [hf.outcome]
    rw [hledger]
    exact (hf.calls.amount_le_of_notMem (by simp [hredemptions])).trans (Nat.le_add_right _ _)
  | _ => rw [amount_kept h rfl]; exact Nat.le_add_right _ _

end Step

/-- Over any run an account of an outside wallet loses at most what the successes that its owner
signed name. -/
theorem spending_limit (w₀ : World) (actions : List Action) (a : Ata)
    (ha : a.wallet ∉ programAuthorities) :
    w₀.ledger.amount a ≤ (run step w₀ actions).ledger.amount a +
      tally step (fun action _ => action.instruction.spends a.wallet a.mint) w₀ actions :=
  tally_bound (fun w => w.ledger.amount a) _ (fun _ _ _ hs => execute_costs hs ha) w₀ actions

/-- Bob signs for 0.6 USDC; what Alice and the redemption admin do costs him nothing. -/
theorem spending_limit_requests :
    let w₀ := World.genesis (Sample.ledger Sample.issuer)
    let actions := Sample.setup ++ [Sample.aliceRequests, Sample.bobRequests, Sample.fulfillAlice]
    1000000 ≤ (run step w₀ actions).ledger.amount (Sample.account Sample.bob.key Sample.usdc) +
      600000 := by
  intro w₀ actions
  have hlimit : w₀.ledger.amount (Sample.account Sample.bob.key Sample.usdc) ≤
      (run step w₀ actions).ledger.amount (Sample.account Sample.bob.key Sample.usdc) +
        tally step (fun action _ => action.instruction.spends Sample.bob.key Sample.usdc)
          w₀ actions :=
    spending_limit w₀ actions _ (by decide)
  have hbefore : w₀.ledger.amount (Sample.account Sample.bob.key Sample.usdc) = 1000000 := by
    decide +kernel
  have hsigned : tally step (fun action _ => action.instruction.spends Sample.bob.key Sample.usdc)
      w₀ actions = 600000 := by decide +kernel
  rwa [hbefore, hsigned] at hlimit

end OnreApp.Program
