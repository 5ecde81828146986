import OnreApp.Program.World
import OnreApp.Utils.Ed25519Parser

/-!
# State operations

Governance: who the boss, the admins, the approvers and the redemption admin are, and the
switches they hold.
-/
namespace OnreApp.Program

open Library.LittleEndian Library.Outcome Tokens Utils

/-- `state.admins[i] = k`. -/
def setAdmin (s : State) (i : ℕ) (k : Pubkey) : State :=
  { s with admins := ⟨s.admins.toList.set i k, (List.length_set ..).trans s.admins.2⟩ }

/-- `[Pubkey::default(); MAX_ADMINS]`. -/
def noAdmins : List.Vector Pubkey maxAdmins := List.Vector.replicate maxAdmins Pubkey.default

/-- The accounts of an instruction that only the boss may call. -/
structure BossAccounts where
  boss : Signer

/-- An instruction of the boss that rewrites the state account. -/
def bossUpdate (ctx : BossAccounts) (update : State → Except Error State) (w : World) :
    Except Error World := do
  let state ← loadBossState w ctx.boss
  let state ← update state
  pure (w.setState state)

def proposeBoss (ctx : BossAccounts) (newBoss : Pubkey) : World → Except Error World :=
  bossUpdate ctx fun state => do
    require (newBoss ≠ Pubkey.default) (.proposeBoss .invalidBossAddress)
    pure { state with proposedBoss := newBoss }

def addAdmin (ctx : BossAccounts) (newAdmin : Pubkey) : World → Except Error World :=
  bossUpdate ctx fun state => do
    require (newAdmin ∉ state.admins.toList) (.addAdmin .adminAlreadyExists)
    let i ← okOr (state.admins.toList.findIdx? (· = Pubkey.default)) (.addAdmin .maxAdminsReached)
    pure (setAdmin state i newAdmin)

def removeAdmin (ctx : BossAccounts) (adminToRemove : Pubkey) : World → Except Error World :=
  bossUpdate ctx fun state => do
    let i ← okOr (state.admins.toList.findIdx? (· = adminToRemove)) (.removeAdmin .adminNotFound)
    pure (setAdmin state i Pubkey.default)

def clearAdmins (ctx : BossAccounts) : World → Except Error World :=
  bossUpdate ctx fun state => pure { state with admins := noAdmins }

def addApprover (ctx : BossAccounts) (approver : Pubkey) : World → Except Error World :=
  bossUpdate ctx fun state => do
    require (approver ≠ Pubkey.default) (.addApprover .invalidApprover)
    require (¬ (state.approver1 = approver ∨ state.approver2 = approver))
      (.addApprover .approverAlreadyExists)
    if state.approver1 = Pubkey.default then pure { state with approver1 := approver }
    else if state.approver2 = Pubkey.default then pure { state with approver2 := approver }
    else .error (.addApprover .bothApproversFilled)

def removeApprover (ctx : BossAccounts) (approver : Pubkey) : World → Except Error World :=
  bossUpdate ctx fun state => do
    require (approver ≠ Pubkey.default) (.removeApprover .invalidApprover)
    if state.approver1 = approver then pure { state with approver1 := Pubkey.default }
    else if state.approver2 = approver then pure { state with approver2 := Pubkey.default }
    else .error (.removeApprover .notAnApprover)

def setRedemptionAdmin (ctx : BossAccounts) (newRedemptionAdmin : Pubkey) :
    World → Except Error World :=
  bossUpdate ctx fun state => do
    require (newRedemptionAdmin ≠ state.redemptionAdmin) (.setRedemptionAdmin .noChange)
    pure { state with redemptionAdmin := newRedemptionAdmin }

def configureMaxSupply (ctx : BossAccounts) (maxSupply : UInt64) : World → Except Error World :=
  bossUpdate ctx fun state => pure { state with maxSupply }

structure SetOnycMint extends BossAccounts where
  onycMint : Pubkey

def setOnycMint (ctx : SetOnycMint) (w : World) : Except Error World :=
  bossUpdate ctx.toBossAccounts (fun state => do
    let onycMint ← w.ledger.loadMint ctx.onycMint
    pure { state with onycMint := onycMint.key }) w

structure AcceptBoss where
  newBoss : Signer

def acceptBoss (ctx : AcceptBoss) (w : World) : Except Error World := do
  let state ← w.loadState
  require (state.proposedBoss ≠ Pubkey.default) (.acceptBoss .noBossProposal)
  require (ctx.newBoss.key = state.proposedBoss) (.acceptBoss .notProposedBoss)
  pure (w.setState { state with boss := ctx.newBoss, proposedBoss := Pubkey.default })

structure SetKillSwitch where
  signer : Signer

def setKillSwitch (ctx : SetKillSwitch) (enable : Bool) (w : World) : Except Error World := do
  let state ← w.loadState
  let bossSigned := state.boss = ctx.signer
  let adminSigned := ctx.signer.key ∈ state.admins.toList
  if enable then do
    require (bossSigned ∨ adminSigned) (.setKillSwitch .unauthorizedToEnable)
    pure (w.setState { state with isKilled := true })
  else do
    require bossSigned (.setKillSwitch .onlyBossCanDisable)
    pure (w.setState { state with isKilled := false })

/-! ## Closing the state account -/

/-- `sha256("account:State")[..8]`. -/
def stateDiscriminator : List UInt8 := [216, 146, 107, 94, 104, 75, 182, 177]

/-- The bump of the state account's address. -/
def stateBump : UInt8 := 255

/-- The Borsh encoding of the fields after `boss`. -/
def stateTail (s : State) : List UInt8 :=
  s.proposedBoss.toBytes ++ (if s.isKilled then 1 else 0) :: s.onycMint.toBytes ++
    s.admins.toList.flatMap Pubkey.toBytes ++ s.approver1.toBytes ++ s.approver2.toBytes ++
    stateBump :: toLe 8 s.maxSupply.toNat ++ s.redemptionAdmin.toBytes ++ List.replicate 96 0

/-- The bytes of the state account: the discriminator, then the fields. -/
def stateAccountData (s : State) : List UInt8 :=
  stateDiscriminator ++ (s.boss.key.toBytes ++ stateTail s)

structure CloseState where
  boss : Signer

/-- The account passed as `state` is compared with the derived address, so it is the one
stored. A closed account belongs to the System Program. -/
def closeState (ctx : CloseState) (w : World) : Except Error World := do
  let state ← okOr w.state (.closeState .invalidStateOwner)
  let data := stateAccountData state
  require (40 ≤ data.length) (.closeState .invalidStateData)
  let storedBoss := Pubkey.ofBytes (slice data 8 32)
  require (ctx.boss.key = storedBoss) (.closeState .unauthorizedSigner)
  pure { w with state := none }

/-! ## What a state operation changes -/

variable {w w' : World}

theorem bossUpdate_eq_ok {ctx : BossAccounts} {update : State → Except Error State} :
    bossUpdate ctx update w = .ok w' ↔
      ∃ s s', w.state = some s ∧ s.boss = ctx.boss ∧ update s = .ok s' ∧ w' = w.setState s' := by
  simp only [bossUpdate, bind_eq_ok, loadBossState_eq_ok, pure_eq_ok]
  constructor
  · rintro ⟨s, ⟨hs, hb⟩, s', hu, rfl⟩
    exact ⟨s, s', hs, hb, hu, rfl⟩
  · rintro ⟨s, s', hs, hb, hu, rfl⟩
    exact ⟨s, ⟨hs, hb⟩, s', hu, rfl⟩

/-- The approver fields, as slots. -/
def approverSlots (s : State) : List Pubkey := [s.approver1, s.approver2]

/-- Write approver slot `i`. -/
def setApprover (s : State) (i : ℕ) (k : Pubkey) : State :=
  { s with approver1 := if i = 0 then k else s.approver1
           approver2 := if i = 0 then s.approver2 else k }

theorem addAdmin_eq_ok {ctx : BossAccounts} {k : Pubkey} :
    addAdmin ctx k w = .ok w' ↔ ∃ s i, w.state = some s ∧ s.boss = ctx.boss ∧
    k ∉ s.admins.toList ∧ s.admins.toList.findIdx? (· = Pubkey.default) = some i ∧
    w' = w.setState (setAdmin s i k) := by
  simp only [addAdmin, bossUpdate_eq_ok, bind_eq_ok, require_eq_ok, okOr_eq_ok, pure_eq_ok]
  constructor
  · intro h
    obtain ⟨s, s', hs, hb, ⟨_, hk, i, hi, he⟩, hw⟩ := h
    rw [← he] at hw
    exact ⟨s, i, hs, hb, hk, hi, hw⟩
  · intro h
    obtain ⟨s, i, hs, hb, hk, hi, hw⟩ := h
    exact ⟨s, _, hs, hb, ⟨⟨⟩, hk, i, hi, rfl⟩, hw⟩

theorem removeAdmin_eq_ok {ctx : BossAccounts} {k : Pubkey} :
    removeAdmin ctx k w = .ok w' ↔ ∃ s i, w.state = some s ∧
    s.boss = ctx.boss ∧ s.admins.toList.findIdx? (· = k) = some i ∧
    w' = w.setState (setAdmin s i Pubkey.default) := by
  simp only [removeAdmin, bossUpdate_eq_ok, bind_eq_ok, okOr_eq_ok, pure_eq_ok]
  constructor
  · intro h
    obtain ⟨s, s', hs, hb, ⟨i, hi, he⟩, hw⟩ := h
    rw [← he] at hw
    exact ⟨s, i, hs, hb, hi, hw⟩
  · intro h
    obtain ⟨s, i, hs, hb, hi, hw⟩ := h
    exact ⟨s, _, hs, hb, ⟨i, hi, rfl⟩, hw⟩

theorem clearAdmins_eq_ok {ctx : BossAccounts} :
    clearAdmins ctx w = .ok w' ↔ ∃ s, w.state = some s ∧
    s.boss = ctx.boss ∧ w' = w.setState { s with admins := noAdmins } := by
  simp only [clearAdmins, bossUpdate_eq_ok, pure_eq_ok]
  constructor
  · intro h
    obtain ⟨s, s', hs, hb, he, hw⟩ := h
    rw [← he] at hw
    exact ⟨s, hs, hb, hw⟩
  · intro h
    obtain ⟨s, hs, hb, hw⟩ := h
    exact ⟨s, _, hs, hb, rfl, hw⟩

/-- The two fields are searched as two slots are. -/
theorem addApprover_eq_ok {ctx : BossAccounts} {k : Pubkey} :
    addApprover ctx k w = .ok w' ↔ ∃ s i, w.state = some s ∧
    s.boss = ctx.boss ∧ k ≠ Pubkey.default ∧ k ∉ approverSlots s ∧
    (approverSlots s).findIdx? (· = Pubkey.default) = some i ∧
    w' = w.setState (setApprover s i k) := by
  have hupdate : ∀ s : State,
      (if s.approver1 = Pubkey.default then (pure { s with approver1 := k } : Except Error State)
        else if s.approver2 = Pubkey.default then pure { s with approver2 := k }
        else .error (.addApprover .bothApproversFilled)) =
      (okOr ((approverSlots s).findIdx? (· = Pubkey.default))
        (.addApprover .bothApproversFilled)).map (setApprover s · k) := by
    intro s
    simp only [approverSlots, List.findIdx?_cons, List.findIdx?_nil, decide_eq_true_eq]
    split
    · rfl
    · split <;> rfl
  have hmem : ∀ s : State, (s.approver1 = k ∨ s.approver2 = k) ↔ k ∈ approverSlots s := by
    intro s
    simp [approverSlots, eq_comm]
  simp only [addApprover, bossUpdate_eq_ok, bind_eq_ok, require_eq_ok, hupdate, hmem]
  constructor
  · intro h
    obtain ⟨s, s', hs, hb, ⟨_, hne, _, hk, he⟩, hw⟩ := h
    cases hi : (approverSlots s).findIdx? (· = Pubkey.default) with
    | none =>
      rw [hi] at he
      cases he
    | some i =>
      rw [hi] at he
      cases he
      exact ⟨s, i, hs, hb, hne, hk, hi, hw⟩
  · intro h
    obtain ⟨s, i, hs, hb, hne, hk, hi, hw⟩ := h
    refine ⟨s, _, hs, hb, ⟨⟨⟩, hne, ⟨⟩, hk, ?_⟩, hw⟩
    rw [hi]
    rfl

theorem removeApprover_eq_ok {ctx : BossAccounts} {k : Pubkey} :
    removeApprover ctx k w = .ok w' ↔ ∃ s i, w.state = some s ∧
    s.boss = ctx.boss ∧ k ≠ Pubkey.default ∧ (approverSlots s).findIdx? (· = k) = some i ∧
    w' = w.setState (setApprover s i Pubkey.default) := by
  have hupdate : ∀ s : State,
      (if s.approver1 = k then (pure { s with approver1 := Pubkey.default } : Except Error State)
        else if s.approver2 = k then pure { s with approver2 := Pubkey.default }
        else .error (.removeApprover .notAnApprover)) =
      (okOr ((approverSlots s).findIdx? (· = k))
        (.removeApprover .notAnApprover)).map (setApprover s · Pubkey.default) := by
    intro s
    simp only [approverSlots, List.findIdx?_cons, List.findIdx?_nil, decide_eq_true_eq]
    split
    · rfl
    · split <;> rfl
  simp only [removeApprover, bossUpdate_eq_ok, bind_eq_ok, require_eq_ok, hupdate]
  constructor
  · intro h
    obtain ⟨s, s', hs, hb, ⟨_, hne, he⟩, hw⟩ := h
    cases hi : (approverSlots s).findIdx? (· = k) with
    | none =>
      rw [hi] at he
      cases he
    | some i =>
      rw [hi] at he
      cases he
      exact ⟨s, i, hs, hb, hne, hi, hw⟩
  · intro h
    obtain ⟨s, i, hs, hb, hne, hi, hw⟩ := h
    refine ⟨s, _, hs, hb, ⟨⟨⟩, hne, ?_⟩, hw⟩
    rw [hi]
    rfl

theorem acceptBoss_eq_ok {ctx : AcceptBoss} :
    acceptBoss ctx w = .ok w' ↔
      ∃ s, w.state = some s ∧ s.proposedBoss ≠ Pubkey.default ∧ ctx.newBoss.key = s.proposedBoss ∧
        w' = w.setState { s with boss := ctx.newBoss, proposedBoss := Pubkey.default } := by
  simp only [acceptBoss, bind_eq_ok, World.loadState_eq_ok, require_eq_ok, pure_eq_ok]
  constructor
  · rintro ⟨s, hs, _, hp, _, hk, rfl⟩
    exact ⟨s, hs, hp, hk, rfl⟩
  · rintro ⟨s, hs, hp, hk, rfl⟩
    exact ⟨s, hs, ⟨⟩, hp, ⟨⟩, hk, rfl⟩

/-- The switch goes on for the boss or an admin, and off for the boss. -/
theorem setKillSwitch_eq_ok {ctx : SetKillSwitch} {enable : Bool} :
    setKillSwitch ctx enable w = .ok w' ↔
      ∃ s, w.state = some s ∧
        (s.boss = ctx.signer ∨ enable = true ∧ ctx.signer.key ∈ s.admins.toList) ∧
        w' = w.setState { s with isKilled := enable } := by
  simp only [setKillSwitch, bind_eq_ok, World.loadState_eq_ok]
  refine exists_congr fun s => and_congr_right fun _ => ?_
  cases enable with
  | true =>
    simp only [if_true, bind_eq_ok, require_eq_ok, pure_eq_ok, true_and]
    constructor
    · rintro ⟨_, h, rfl⟩
      exact ⟨h, rfl⟩
    · rintro ⟨h, rfl⟩
      exact ⟨⟨⟩, h, rfl⟩
  | false =>
    simp only [Bool.false_eq_true, if_false, bind_eq_ok, require_eq_ok, pure_eq_ok, false_and,
      or_false]
    constructor
    · rintro ⟨_, h, rfl⟩
      exact ⟨h, rfl⟩
    · rintro ⟨h, rfl⟩
      exact ⟨⟨⟩, h, rfl⟩

/-- The raw bytes that `close_state` reads are those of the stored boss. -/
theorem storedBoss_eq (s : State) :
    Pubkey.ofBytes (slice (stateAccountData s) 8 32) = s.boss.key := by
  have h : slice (stateAccountData s) 8 32 = s.boss.key.toBytes := by
    have hd : (stateAccountData s).drop 8 = s.boss.key.toBytes ++ stateTail s :=
      List.drop_left' rfl
    rw [slice, hd, List.take_left' (Pubkey.length_toBytes _)]
  rw [h, Pubkey.ofBytes_toBytes]

theorem closeState_eq_ok {ctx : CloseState} :
    closeState ctx w = .ok w' ↔
      ∃ s, w.state = some s ∧ s.boss = ctx.boss ∧ w' = { w with state := none } := by
  simp only [closeState, bind_eq_ok, okOr_eq_ok, require_eq_ok, pure_eq_ok, storedBoss_eq]
  constructor
  · rintro ⟨s, hs, _, _, _, hb, rfl⟩
    exact ⟨s, hs, ExternalKey.ext hb.symm, rfl⟩
  · rintro ⟨s, hs, hb, rfl⟩
    have hlen : 40 ≤ (stateAccountData s).length := by
      have h8 : stateDiscriminator.length = 8 := rfl
      simp only [stateAccountData, List.length_append, Pubkey.length_toBytes, h8]
      omega
    exact ⟨s, hs, ⟨⟩, hlen, ⟨⟩, congrArg ExternalKey.key hb.symm, rfl⟩

end OnreApp.Program
