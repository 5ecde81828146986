import OnreApp.Program.StateOperations

/-!
# Initialization
-/
namespace OnreApp.Program

open Library.Outcome Tokens

structure Initialize where
  boss : Signer
  programData : Option Pubkey
  onycMint : Pubkey

/-- The upgrade authority that the loader records for this program; none is recorded for a
program that can no longer be upgraded. -/
def getUpgradeAuthority (env : Env) (programData : Option Pubkey) :
    Except Error (Option Pubkey) := do
  require ((env.rawAccount programId).owner = bpfLoaderUpgradeableId) (.initializeState .wrongOwner)
  let programData ← okOr programData (.initializeState .missingProgramData)
  require ((env.rawAccount programData).owner = bpfLoaderUpgradeableId)
    (.initializeState .wrongOwner)
  require (programDataAddress = programData) (.initializeState .wrongProgramData)
  let state ← okOr (env.rawAccount programData).loaderState
    (.initializeState .deserializeProgramDataFailed)
  match state with
  | .programData _ upgradeAuthorityAddress => pure upgradeAuthorityAddress
  | .other => .error (.initializeState .notProgramData)

/-- The instruction `initialize`. -/
def initializeState (env : Env) (ctx : Initialize) (w : World) : Except Error World := do
  require (w.state = none) (.anchor .accountAlreadyInUse)
  let onycMint ← w.ledger.loadMint ctx.onycMint
  let upgradeAuthority ← getUpgradeAuthority env ctx.programData
  require (∀ authority ∈ upgradeAuthority, ctx.boss.key = authority) (.initializeState .wrongOwner)
  -- The account was just created, so its `boss` is still the default key.
  pure (w.setState
    { boss := ctx.boss, proposedBoss := Pubkey.default, isKilled := false,
      onycMint := onycMint.key, admins := noAdmins, approver1 := Pubkey.default,
      approver2 := Pubkey.default, maxSupply := 0, redemptionAdmin := Pubkey.default })

/-- Unicode `White_Space`, which `str::trim` removes. -/
def isWhiteSpace (c : Char) : Bool :=
  let n := c.toNat
  (9 ≤ n && n ≤ 13) || n = 32 || n = 0x85 || n = 0xa0 || n = 0x1680 ||
    (0x2000 ≤ n && n ≤ 0x200a) || n = 0x2028 || n = 0x2029 || n = 0x202f || n = 0x205f || n = 0x3000

/-- `str::trim`. -/
def trim (s : String) : String :=
  String.ofList (((s.toList.dropWhile isWhiteSpace).reverse.dropWhile isWhiteSpace).reverse)

/-- `#[max_len(50)]` of the account's name, in bytes. -/
def maxNameBytes : ℕ := 50

structure InitializePermissionlessAuthority where
  boss : Signer

def initializePermissionlessAuthority (ctx : InitializePermissionlessAuthority) (name : String)
    (w : World) : Except Error World := do
  require (w.permissionlessAuthority.isNone = true) (.anchor .accountAlreadyInUse)
  let _ ← loadBossState w ctx.boss
  let nameCleaned := trim name
  require (nameCleaned ≠ "") (.initializePermissionless .invalidPermissionlessAccountName)
  -- Anchor writes the account back into the space reserved for it.
  require (nameCleaned.utf8ByteSize ≤ maxNameBytes) (.anchor .accountDidNotSerialize)
  pure { w with permissionlessAuthority := some { name := nameCleaned } }

variable {w w' : World}

theorem initializeState_ok {env : Env} {ctx : Initialize} (h : initializeState env ctx w = .ok w') :
    w.state = none ∧ (∃ authority, getUpgradeAuthority env ctx.programData = .ok authority ∧
      ∀ a ∈ authority, ctx.boss.key = a) ∧
    w' = w.setState
      { boss := ctx.boss, proposedBoss := Pubkey.default, isKilled := false,
        onycMint := ctx.onycMint, admins := noAdmins, approver1 := Pubkey.default,
        approver2 := Pubkey.default, maxSupply := 0, redemptionAdmin := Pubkey.default } := by
  simp only [initializeState, bind_eq_ok, require_eq_ok, Ledger.loadMint_eq_ok, pure_eq_ok] at h
  obtain ⟨_, hs, m, ⟨_, hm⟩, authority, ha, _, hb, rfl⟩ := h
  rw [hm]
  exact ⟨hs, ⟨authority, ha, hb⟩, rfl⟩

theorem initializePermissionlessAuthority_ok {ctx : InitializePermissionlessAuthority}
    {name : String} (h : initializePermissionlessAuthority ctx name w = .ok w') :
    ∃ s authority, w.state = some s ∧ s.boss = ctx.boss ∧
      w' = { w with permissionlessAuthority := some authority } := by
  simp only [initializePermissionlessAuthority, bind_eq_ok, require_eq_ok, loadBossState_eq_ok,
    pure_eq_ok] at h
  obtain ⟨_, _, s, ⟨hs, hb⟩, _, _, _, _, rfl⟩ := h
  exact ⟨s, _, hs, hb, rfl⟩

end OnreApp.Program
