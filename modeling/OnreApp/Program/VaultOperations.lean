import OnreApp.Offers.MakeOffer
import OnreApp.Redemption.RedemptionOffers

/-!
# Vault operations

The boss moves tokens between its own accounts and the two vaults. The four instructions
are a deposit and a withdrawal, each for the authority of one vault.
-/
namespace OnreApp.Program

open Library.Outcome Tokens Utils

structure VaultAccounts where
  tokenMint : Pubkey
  tokenProgram : TokenProgram
  boss : Signer

namespace VaultAccounts

def bossTokenAccount (ctx : VaultAccounts) : Ata := ⟨ctx.boss.key, ctx.tokenMint, ctx.tokenProgram⟩

def vaultTokenAccount (ctx : VaultAccounts) (vaultAuthority : Pubkey) : Ata :=
  ⟨vaultAuthority, ctx.tokenMint, ctx.tokenProgram⟩

end VaultAccounts

def vaultDeposit (vaultAuthority : Pubkey) (env : Env) (ctx : VaultAccounts) (amount : UInt64)
    (w : World) : Except Error World := do
  let _ ← w.ledger.loadMint ctx.tokenMint
  w.ledger.loadAta ctx.bossTokenAccount
  let ledger ← w.ledger.initIfNeeded (ctx.vaultTokenAccount vaultAuthority)
  let _ ← loadBossState w ctx.boss
  let ledger ← transferTokens env.epoch ctx.bossTokenAccount (ctx.vaultTokenAccount vaultAuthority)
    ctx.boss.key amount ledger
  pure (w.setLedger ledger)

def vaultWithdraw (vaultAuthority : Pubkey) (env : Env) (ctx : VaultAccounts) (amount : UInt64)
    (w : World) : Except Error World := do
  let _ ← w.ledger.loadMint ctx.tokenMint
  let ledger ← w.ledger.initIfNeeded ctx.bossTokenAccount
  w.ledger.loadAta (ctx.vaultTokenAccount vaultAuthority)
  let _ ← loadBossState w ctx.boss
  let ledger ← transferTokens env.epoch (ctx.vaultTokenAccount vaultAuthority) ctx.bossTokenAccount
    vaultAuthority amount ledger
  pure (w.setLedger ledger)

def offerVaultDeposit := vaultDeposit Seeds.offerVaultAuthority
def offerVaultWithdraw := vaultWithdraw Seeds.offerVaultAuthority
def redemptionVaultDeposit := vaultDeposit Seeds.redemptionOfferVaultAuthority
def redemptionVaultWithdraw := vaultWithdraw Seeds.redemptionOfferVaultAuthority

variable {w w' : World} {vaultAuthority : Pubkey} {env : Env} {ctx : VaultAccounts}
  {amount : UInt64}

theorem vaultDeposit_ok (h : vaultDeposit vaultAuthority env ctx amount w = .ok w') :
    ∃ s ledger ledger', w.state = some s ∧ s.boss = ctx.boss ∧
      w.ledger.initIfNeeded (ctx.vaultTokenAccount vaultAuthority) = .ok ledger ∧
      transferTokens env.epoch ctx.bossTokenAccount (ctx.vaultTokenAccount vaultAuthority)
        ctx.boss.key amount ledger = .ok ledger' ∧
      w' = w.setLedger ledger' := by
  simp only [vaultDeposit, bind_eq_ok, loadBossState_eq_ok, pure_eq_ok] at h
  obtain ⟨_, _, _, _, l, hl, s, ⟨hs, hb⟩, l', hl', rfl⟩ := h
  exact ⟨s, l, l', hs, hb, hl, hl', rfl⟩

theorem vaultWithdraw_ok (h : vaultWithdraw vaultAuthority env ctx amount w = .ok w') :
    ∃ s ledger ledger', w.state = some s ∧ s.boss = ctx.boss ∧
      w.ledger.initIfNeeded ctx.bossTokenAccount = .ok ledger ∧
      transferTokens env.epoch (ctx.vaultTokenAccount vaultAuthority) ctx.bossTokenAccount
        vaultAuthority amount ledger = .ok ledger' ∧
      w' = w.setLedger ledger' := by
  simp only [vaultWithdraw, bind_eq_ok, loadBossState_eq_ok, pure_eq_ok] at h
  obtain ⟨_, _, l, hl, _, _, s, ⟨hs, hb⟩, l', hl', rfl⟩ := h
  exact ⟨s, l, l', hs, hb, hl, hl', rfl⟩

end OnreApp.Program
