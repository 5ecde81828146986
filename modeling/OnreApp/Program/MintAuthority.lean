import OnreApp.Program.World
import OnreApp.Utils.TokenUtils

/-!
# Mint authority

Minting ONyc to the boss, and moving the authority of a mint between the boss and the
program.
-/
namespace OnreApp.Program

open Library.Outcome Tokens Utils

/-- `mint.mint_authority.unwrap()`. -/
def unwrapMintAuthority (mint : MintAccount) : Except Error Pubkey :=
  okOr mint.mintAuthority .panic

structure MintTo where
  boss : Signer
  onycMint : Pubkey
  tokenProgram : TokenProgram

def MintTo.bossOnycAccount (ctx : MintTo) : Ata := ⟨ctx.boss.key, ctx.onycMint, ctx.tokenProgram⟩

def mintTo (ctx : MintTo) (amount : UInt64) (w : World) : Except Error World := do
  let state ← loadBossState w ctx.boss
  require (state.onycMint = ctx.onycMint) (.anchor .constraintHasOne)
  let onycMint ← w.ledger.loadMint ctx.onycMint
  let ledger ← w.ledger.initIfNeeded ctx.bossOnycAccount
  let mintAuthority ← unwrapMintAuthority onycMint
  require (mintAuthority = Seeds.mintAuthority) (.mintTo .noMintAuthority)
  let ledger ← mintTokens onycMint ctx.bossOnycAccount Seeds.mintAuthority amount state.maxSupply
    ledger
  pure (w.setLedger ledger)

structure TransferMintAuthority where
  boss : Signer
  mint : Pubkey
  tokenProgram : TokenProgram

/-- `token::set_authority` always calls the SPL Token program, whichever program is passed;
the program a call goes to has to be among the accounts of the instruction. -/
def transferMintAuthorityToBoss (ctx : TransferMintAuthority) (w : World) : Except Error World := do
  let _ ← loadBossState w ctx.boss
  let mint ← w.ledger.loadMint ctx.mint
  let mintAuthority ← unwrapMintAuthority mint
  require (mintAuthority = Seeds.mintAuthority)
    (.transferMintAuthorityToBoss .programNotMintAuthority)
  require (ctx.tokenProgram = .token) .tokenProgram
  let ledger ← w.ledger.setMintAuthority .token ctx.mint Seeds.mintAuthority ctx.boss.key
  pure (w.setLedger ledger)

/-- `token_interface::set_authority` calls the program that is passed. -/
def transferMintAuthorityToProgram (ctx : TransferMintAuthority) (w : World) :
    Except Error World := do
  let _ ← loadBossState w ctx.boss
  let mint ← w.ledger.loadMint ctx.mint
  let mintAuthority ← unwrapMintAuthority mint
  require (mintAuthority = ctx.boss.key) (.transferMintAuthorityToProgram .bossNotMintAuthority)
  let ledger ← w.ledger.setMintAuthority ctx.tokenProgram ctx.mint ctx.boss.key Seeds.mintAuthority
  pure (w.setLedger ledger)

variable {w w' : World}

theorem mintTo_ok {ctx : MintTo} {amount : UInt64} (h : mintTo ctx amount w = .ok w') :
    ∃ s mint ledger ledger', w.state = some s ∧ s.boss = ctx.boss ∧
      s.onycMint = ctx.onycMint ∧
      w.ledger.mints.lookup ctx.onycMint = some mint.toMint ∧ mint.key = ctx.onycMint ∧
      w.ledger.initIfNeeded ctx.bossOnycAccount = .ok ledger ∧
      mintTokens mint ctx.bossOnycAccount Seeds.mintAuthority amount s.maxSupply ledger =
        .ok ledger' ∧
      w' = w.setLedger ledger' := by
  simp only [mintTo, bind_eq_ok, loadBossState_eq_ok, require_eq_ok, Ledger.loadMint_eq_ok,
    pure_eq_ok] at h
  obtain ⟨s, ⟨hs, hb⟩, _, ho, m, ⟨hm, hk⟩, l, hl, _, _, _, _, l', hl', rfl⟩ := h
  exact ⟨s, m, l, l', hs, hb, ho, hm, hk, hl, hl', rfl⟩

theorem transferMintAuthorityToBoss_ok {ctx : TransferMintAuthority}
    (h : transferMintAuthorityToBoss ctx w = .ok w') :
    ∃ s, w.state = some s ∧ s.boss = ctx.boss ∧ ctx.tokenProgram = .token ∧
      w.ledger.CanSetAuthority .token ctx.mint Seeds.mintAuthority ∧
      w' = w.setLedger (w.ledger.setAuthority ctx.mint ctx.boss.key) := by
  simp only [transferMintAuthorityToBoss, bind_eq_ok, loadBossState_eq_ok, require_eq_ok,
    Ledger.setMintAuthority_eq_ok, pure_eq_ok] at h
  obtain ⟨s, ⟨hs, hb⟩, _, _, _, _, _, _, _, hp, _, ⟨hc, rfl⟩, rfl⟩ := h
  exact ⟨s, hs, hb, hp, hc, rfl⟩

theorem transferMintAuthorityToProgram_ok {ctx : TransferMintAuthority}
    (h : transferMintAuthorityToProgram ctx w = .ok w') :
    ∃ s, w.state = some s ∧ s.boss = ctx.boss ∧
      w.ledger.CanSetAuthority ctx.tokenProgram ctx.mint ctx.boss.key ∧
      w' = w.setLedger (w.ledger.setAuthority ctx.mint Seeds.mintAuthority) := by
  simp only [transferMintAuthorityToProgram, bind_eq_ok, loadBossState_eq_ok, require_eq_ok,
    Ledger.setMintAuthority_eq_ok, pure_eq_ok] at h
  obtain ⟨s, ⟨hs, hb⟩, _, _, _, _, _, _, _, ⟨hc, rfl⟩, rfl⟩ := h
  exact ⟨s, hs, hb, hc, rfl⟩

end OnreApp.Program
