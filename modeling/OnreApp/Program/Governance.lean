import OnreApp.Program.Effects

/-!
# What an instruction writes to the state account

Eleven instructions rewrite the state account, and two create and close it. This module says
for each of them what it writes and who has to sign; every other instruction leaves the
account as it is.
-/
namespace OnreApp.Program

open Library.FiniteStore Library.Outcome Offers Redemption Tokens

/-- The instructions that write the state account. -/
def Instruction.writesState : Instruction → Bool
  | .initializeState _ | .proposeBoss _ _ | .acceptBoss _ | .addAdmin _ _ | .removeAdmin _ _
  | .clearAdmins _ | .setKillSwitch _ _ | .setOnycMint _ | .setRedemptionAdmin _ _
  | .addApprover _ _ | .removeApprover _ _ | .configureMaxSupply _ _ | .closeState _ => true
  | _ => false

/-- The state that `initialize` writes. -/
def firstState (ctx : Initialize) : State where
  boss := ctx.boss
  proposedBoss := Pubkey.default
  isKilled := false
  onycMint := ctx.onycMint
  admins := noAdmins
  approver1 := Pubkey.default
  approver2 := Pubkey.default
  maxSupply := 0
  redemptionAdmin := Pubkey.default

/-- The state after the boss's instruction of that name, where it succeeds. -/
inductive BossWrite (s : State) : Instruction → State → Prop
  | proposeBoss {ctx : BossAccounts} {newBoss : Pubkey} (named : newBoss ≠ Pubkey.default) :
    BossWrite s (.proposeBoss ctx newBoss) { s with proposedBoss := newBoss }
  | addAdmin {ctx : BossAccounts} {newAdmin : Pubkey} {i : ℕ}
    (absent : newAdmin ∉ s.admins.toList)
    (slot : s.admins.toList.findIdx? (· = Pubkey.default) = some i) :
    BossWrite s (.addAdmin ctx newAdmin) (setAdmin s i newAdmin)
  | removeAdmin {ctx : BossAccounts} {adminToRemove : Pubkey} {i : ℕ}
    (slot : s.admins.toList.findIdx? (· = adminToRemove) = some i) :
    BossWrite s (.removeAdmin ctx adminToRemove) (setAdmin s i Pubkey.default)
  | clearAdmins {ctx : BossAccounts} : BossWrite s (.clearAdmins ctx) { s with admins := noAdmins }
  | addApprover {ctx : BossAccounts} {approver : Pubkey} {i : ℕ}
    (absent : approver ∉ approverSlots s)
    (slot : (approverSlots s).findIdx? (· = Pubkey.default) = some i) :
    BossWrite s (.addApprover ctx approver) (setApprover s i approver)
  | removeApprover {ctx : BossAccounts} {approver : Pubkey} {i : ℕ}
    (slot : (approverSlots s).findIdx? (· = approver) = some i) :
    BossWrite s (.removeApprover ctx approver) (setApprover s i Pubkey.default)
  | setRedemptionAdmin {ctx : BossAccounts} {newRedemptionAdmin : Pubkey} :
    BossWrite s (.setRedemptionAdmin ctx newRedemptionAdmin)
      { s with redemptionAdmin := newRedemptionAdmin }
  | configureMaxSupply {ctx : BossAccounts} {maxSupply : UInt64} :
    BossWrite s (.configureMaxSupply ctx maxSupply) { s with maxSupply }
  | setOnycMint {ctx : SetOnycMint} :
    BossWrite s (.setOnycMint ctx) { s with onycMint := ctx.onycMint }

/-- What a successful instruction does to the state account. -/
inductive StateStep (env : Env) : Instruction → Option State → Option State → Prop
  | kept {i : Instruction} {o : Option State} (quiet : i.writesState = false) : StateStep env i o o
  | initialized {ctx : Initialize} {authority : Option Pubkey}
    (recorded : getUpgradeAuthority env ctx.programData = .ok authority)
    (signed : ∀ a ∈ authority, ctx.boss.key = a) :
    StateStep env (.initializeState ctx) none (some (firstState ctx))
  | bossWrites {i : Instruction} {s s' : State} (signed : i.signer = some s.boss)
    (write : BossWrite s i s') : StateStep env i (some s) (some s')
  | acceptBoss {ctx : AcceptBoss} {s : State} (named : s.proposedBoss ≠ Pubkey.default)
    (signed : ctx.newBoss.key = s.proposedBoss) :
    StateStep env (.acceptBoss ctx) (some s)
      (some { s with boss := ctx.newBoss, proposedBoss := Pubkey.default })
  | setKillSwitch {ctx : SetKillSwitch} {enable : Bool} {s : State}
    (signed : s.boss = ctx.signer ∨ enable = true ∧ ctx.signer.key ∈ s.admins.toList) :
    StateStep env (.setKillSwitch ctx enable) (some s) (some { s with isKilled := enable })
  | closeState {ctx : CloseState} {s : State} (signed : s.boss = ctx.boss) :
    StateStep env (.closeState ctx) (some s) none

section EntryPoints

variable {env : Env} {i : Instruction} {w w' : World}

theorem bossUpdate_stateStep {ctx : BossAccounts} {update : State → Except Error State}
    (h : bossUpdate ctx update w = .ok w') (hi : i.signer = some ctx.boss)
    (hwrite : ∀ s s', update s = .ok s' → BossWrite s i s') :
    StateStep env i w.state w'.state := by
  obtain ⟨s, s', hs, hb, hu, rfl⟩ := bossUpdate_eq_ok.mp h
  rw [hs]
  exact .bossWrites (hb ▸ hi) (hwrite s s' hu)

theorem proposeBoss_stateStep {ctx : BossAccounts} {newBoss : Pubkey}
    (h : proposeBoss ctx newBoss w = .ok w') :
    StateStep env (.proposeBoss ctx newBoss) w.state w'.state := by
  apply bossUpdate_stateStep h rfl
  intro s s' hu
  simp only [bind_eq_ok, require_eq_ok, pure_eq_ok] at hu
  obtain ⟨_, hne, rfl⟩ := hu
  exact .proposeBoss hne

theorem addAdmin_stateStep {ctx : BossAccounts} {newAdmin : Pubkey}
    (h : addAdmin ctx newAdmin w = .ok w') :
    StateStep env (.addAdmin ctx newAdmin) w.state w'.state := by
  obtain ⟨s, i, hs, hb, habsent, hi, rfl⟩ := addAdmin_eq_ok.mp h
  rw [hs]
  exact .bossWrites (congrArg some hb.symm) (.addAdmin habsent hi)

theorem removeAdmin_stateStep {ctx : BossAccounts} {adminToRemove : Pubkey}
    (h : removeAdmin ctx adminToRemove w = .ok w') :
    StateStep env (.removeAdmin ctx adminToRemove) w.state w'.state := by
  obtain ⟨s, i, hs, hb, hi, rfl⟩ := removeAdmin_eq_ok.mp h
  rw [hs]
  exact .bossWrites (congrArg some hb.symm) (.removeAdmin hi)

theorem addApprover_stateStep {ctx : BossAccounts} {approver : Pubkey}
    (h : addApprover ctx approver w = .ok w') :
    StateStep env (.addApprover ctx approver) w.state w'.state := by
  obtain ⟨s, i, hs, hb, _, habsent, hi, rfl⟩ := addApprover_eq_ok.mp h
  rw [hs]
  exact .bossWrites (congrArg some hb.symm) (.addApprover habsent hi)

theorem removeApprover_stateStep {ctx : BossAccounts} {approver : Pubkey}
    (h : removeApprover ctx approver w = .ok w') :
    StateStep env (.removeApprover ctx approver) w.state w'.state := by
  obtain ⟨s, i, hs, hb, _, hi, rfl⟩ := removeApprover_eq_ok.mp h
  rw [hs]
  exact .bossWrites (congrArg some hb.symm) (.removeApprover hi)

theorem setRedemptionAdmin_stateStep {ctx : BossAccounts} {newRedemptionAdmin : Pubkey}
    (h : setRedemptionAdmin ctx newRedemptionAdmin w = .ok w') :
    StateStep env (.setRedemptionAdmin ctx newRedemptionAdmin) w.state w'.state := by
  apply bossUpdate_stateStep h rfl
  intro s s' hu
  simp only [bind_eq_ok, require_eq_ok, pure_eq_ok] at hu
  obtain ⟨_, _, rfl⟩ := hu
  exact .setRedemptionAdmin

theorem setOnycMint_stateStep {ctx : SetOnycMint} (h : setOnycMint ctx w = .ok w') :
    StateStep env (.setOnycMint ctx) w.state w'.state := by
  apply bossUpdate_stateStep h rfl
  intro s s' hu
  simp only [bind_eq_ok, Ledger.loadMint_eq_ok, pure_eq_ok] at hu
  obtain ⟨m, ⟨_, hm⟩, rfl⟩ := hu
  rw [hm]
  exact .setOnycMint

theorem setKillSwitch_stateStep {ctx : SetKillSwitch} {enable : Bool}
    (h : setKillSwitch ctx enable w = .ok w') :
    StateStep env (.setKillSwitch ctx enable) w.state w'.state := by
  obtain ⟨s, hs, hsigned, rfl⟩ := setKillSwitch_eq_ok.mp h
  rw [hs]
  exact .setKillSwitch hsigned

end EntryPoints

/-- Every successful instruction either leaves the state account or is one of the thirteen. -/
theorem execute_stateStep {env : Env} {i : Instruction} {w w' : World}
    (h : execute env i w = .ok w') : StateStep env i w.state w'.state := by
  cases i with
  | initializeState ctx =>
    obtain ⟨hnone, ⟨authority, ha, hsigned⟩, rfl⟩ := initializeState_ok h
    rw [hnone]
    exact .initialized ha hsigned
  | proposeBoss ctx newBoss => exact proposeBoss_stateStep h
  | addAdmin ctx newAdmin => exact addAdmin_stateStep h
  | removeAdmin ctx adminToRemove => exact removeAdmin_stateStep h
  | addApprover ctx approver => exact addApprover_stateStep h
  | removeApprover ctx approver => exact removeApprover_stateStep h
  | setRedemptionAdmin ctx newRedemptionAdmin => exact setRedemptionAdmin_stateStep h
  | setOnycMint ctx => exact setOnycMint_stateStep h
  | setKillSwitch ctx enable => exact setKillSwitch_stateStep h
  | clearAdmins ctx =>
    obtain ⟨s, hs, hb, rfl⟩ := clearAdmins_eq_ok.mp h
    rw [hs]
    exact .bossWrites (congrArg some hb.symm) .clearAdmins
  | configureMaxSupply ctx maxSupply =>
    apply bossUpdate_stateStep h rfl
    intro s s' hu
    cases hu
    exact .configureMaxSupply
  | acceptBoss ctx =>
    obtain ⟨s, hs, hne, hk, rfl⟩ := acceptBoss_eq_ok.mp h
    rw [hs]
    exact .acceptBoss hne hk
  | closeState ctx =>
    obtain ⟨s, hs, hb, rfl⟩ := closeState_eq_ok.mp h
    rw [hs]
    exact .closeState hb
  | initializePermissionlessAuthority ctx name =>
    obtain ⟨s, a, hs, hb, rfl⟩ := initializePermissionlessAuthority_ok h
    exact .kept rfl
  | offerVaultDeposit ctx amount | redemptionVaultDeposit ctx amount =>
    obtain ⟨s, l, l', hs, hb, _, _, rfl⟩ := vaultDeposit_ok h
    exact .kept rfl
  | offerVaultWithdraw ctx amount | redemptionVaultWithdraw ctx amount =>
    obtain ⟨s, l, l', hs, hb, _, _, rfl⟩ := vaultWithdraw_ok h
    exact .kept rfl
  | makeOffer ctx fee needsApproval permissionless =>
    obtain ⟨s, l, hs, hb, hnew, hl, rfl⟩ := makeOffer_ok h
    exact .kept rfl
  | addOfferVector ctx args =>
    obtain ⟨o, o', ho, he, rfl⟩ := addOfferVector_ok h
    exact .kept rfl
  | deleteOfferVector ctx t =>
    obtain ⟨o, o', ho, he, rfl⟩ := deleteOfferVector_ok h
    exact .kept rfl
  | deleteAllOfferVectors ctx =>
    obtain ⟨o, o', ho, he, rfl⟩ := deleteAllOfferVectors_ok h env.now
    exact .kept rfl
  | updateOfferFee ctx fee =>
    obtain ⟨o, ho, rfl⟩ := updateOfferFee_ok h
    exact .kept rfl
  | takeOffer ctx amount approval =>
    obtain ⟨s, l, hs, hl, rfl⟩ := takeOffer_ledger h
    exact .kept rfl
  | takeOfferPermissionless ctx amount approval =>
    obtain ⟨s, l, hs, hl, rfl⟩ := takeOfferPermissionless_ledger h
    exact .kept rfl
  | transferMintAuthorityToProgram ctx =>
    obtain ⟨s, hs, hb, _, rfl⟩ := transferMintAuthorityToProgram_ok h
    exact .kept rfl
  | transferMintAuthorityToBoss ctx =>
    obtain ⟨s, hs, hb, _, _, rfl⟩ := transferMintAuthorityToBoss_ok h
    exact .kept rfl
  | mintTo ctx amount =>
    obtain ⟨s, mint, l, l', hs, hb, ho, hm, hk, hl, hl', rfl⟩ := mintTo_ok h
    exact .kept rfl
  | getNav ctx | getApy ctx | getNavAdjustment ctx | getTvl ctx | getCirculatingSupply ctx =>
    rw [view_eq h]
    exact .kept rfl
  | makeRedemptionOffer ctx fee =>
    obtain ⟨s, l₁, l₂, hs, hauth, hnew, _, _, h₁, h₂, rfl⟩ := makeRedemptionOffer_ok h
    exact .kept rfl
  | createRedemptionRequest ctx amount =>
    obtain ⟨s, o, l, hc⟩ := createRedemptionRequest_ok h
    rw [hc.result]
    exact .kept rfl
  | fulfillRedemptionRequest ctx =>
    obtain ⟨s, offer, o, r, mi, mo, result, l₁, l₂, l₃, hf⟩ := fulfillRedemptionRequest_ok h
    rw [hf.outcome]
    exact .kept rfl
  | cancelRedemptionRequest ctx =>
    obtain ⟨s, o, r, l₁, l₂, hc⟩ := cancelRedemptionRequest_ok h
    rw [hc.result]
    exact .kept rfl
  | updateRedemptionOfferFee ctx fee =>
    obtain ⟨s, o, hs, hb, ho, _, rfl⟩ := updateRedemptionOfferFee_ok h
    exact .kept rfl

end OnreApp.Program
