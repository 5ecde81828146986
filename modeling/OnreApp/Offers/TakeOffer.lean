import OnreApp.Offers.MakeOffer

/-!
# Taking an offer

The direct route pays from the user's accounts and into them. The permissionless route
passes both payments through the accounts of an intermediary that the program signs for.
-/
namespace OnreApp.Offers

open Library.Outcome Program Tokens Utils

/-- The accounts both routes name. -/
structure TakeOffer where
  boss : Pubkey
  tokenInMint : Pubkey
  tokenInProgram : TokenProgram
  tokenOutMint : Pubkey
  tokenOutProgram : TokenProgram
  user : Signer

namespace TakeOffer

def offerPda (ctx : TakeOffer) : OfferPda := ⟨ctx.tokenInMint, ctx.tokenOutMint⟩

/-- The associated token account for `token_in` of a wallet. -/
def tokenInAccount (ctx : TakeOffer) (wallet : Pubkey) : Ata :=
  ⟨wallet, ctx.tokenInMint, ctx.tokenInProgram⟩

/-- The associated token account for `token_out` of a wallet. -/
def tokenOutAccount (ctx : TakeOffer) (wallet : Pubkey) : Ata :=
  ⟨wallet, ctx.tokenOutMint, ctx.tokenOutProgram⟩

/-- The token accounts both routes require, and the one they create if needed. -/
def loadTokenAccounts (ctx : TakeOffer) (vaultAuthority : Pubkey) (l : Ledger) :
    Except Error Ledger := do
  l.loadAta (ctx.tokenInAccount vaultAuthority)
  l.loadAta (ctx.tokenOutAccount vaultAuthority)
  l.loadAta (ctx.tokenInAccount ctx.user.key)
  let ledger ← l.initIfNeeded (ctx.tokenOutAccount ctx.user.key)
  ledger.loadAta (ctx.tokenInAccount ctx.boss)
  pure ledger

/-- The exchange of a take, given who pays `token_in` and who receives `token_out`. -/
def execParams (ctx : TakeOffer) (payer : Pubkey) (state : State)
    (tokenInMint tokenOutMint : MintAccount) (result : OfferProcessResult) :
    ExecTokenOpsParams where
  tokenInMint := tokenInMint
  tokenInNetAmount := result.tokenInNetAmount
  tokenInFeeAmount := result.tokenInFeeAmount
  tokenInAuthority := payer
  tokenInSourceAccount := ctx.tokenInAccount payer
  tokenInDestinationAccount := ctx.tokenInAccount ctx.boss
  tokenInBurnAccount := ctx.tokenInAccount Seeds.offerVaultAuthority
  tokenInBurnAuthority := Seeds.offerVaultAuthority
  tokenOutMint := tokenOutMint
  tokenOutAmount := result.tokenOutAmount
  tokenOutAuthority := Seeds.offerVaultAuthority
  tokenOutSourceAccount := ctx.tokenOutAccount Seeds.offerVaultAuthority
  tokenOutDestinationAccount := ctx.tokenOutAccount payer
  mintAuthorityPda := Seeds.mintAuthority
  tokenOutMaxSupply := state.maxSupply

end TakeOffer

def takeOffer (env : Env) (ctx : TakeOffer) (tokenInAmount : UInt64)
    (approvalMessage : Option ApprovalMessage) (w : World) : Except Error World := do
  let offer ← w.loadOffer ctx.offerPda
  let state ← w.loadState
  require (state.boss.key = ctx.boss) (.takeOffer .invalidBoss)
  require (state.isKilled = false) (.takeOffer .killSwitchActivated)
  let tokenInMint ← w.ledger.loadMint ctx.tokenInMint
  require (tokenInMint.key = offer.tokenInMint) (.offerCore .invalidTokenInMint)
  let tokenOutMint ← w.ledger.loadMint ctx.tokenOutMint
  require (tokenOutMint.key = offer.tokenOutMint) (.offerCore .invalidTokenOutMint)
  let ledger ← ctx.loadTokenAccounts Seeds.offerVaultAuthority w.ledger
  verifyOfferApproval env offer approvalMessage programId ctx.user.key state.approver1
    state.approver2
  let result ← processOfferCore env offer tokenInAmount tokenInMint tokenOutMint
  let ledger ← executeTokenOperations env.epoch
    (ctx.execParams ctx.user.key state tokenInMint tokenOutMint result) ledger
  pure (w.setLedger ledger)

/-- The permissionless route passes the program's authorities as unchecked accounts. -/
structure TakeOfferPermissionless extends TakeOffer where
  vaultAuthority : Pubkey
  permissionlessAuthority : Pubkey
  mintAuthority : Pubkey

def takeOfferPermissionless (env : Env) (ctx : TakeOfferPermissionless) (tokenInAmount : UInt64)
    (approvalMessage : Option ApprovalMessage) (w : World) : Except Error World := do
  let offer ← w.loadOffer ctx.offerPda
  let state ← w.loadState
  require (state.isKilled = false) (.takeOfferPermissionless .killSwitchActivated)
  require (state.boss.key = ctx.boss) (.takeOfferPermissionless .invalidBoss)
  let tokenInMint ← w.ledger.loadMint ctx.tokenInMint
  let tokenOutMint ← w.ledger.loadMint ctx.tokenOutMint
  let permissionlessTokenIn := ctx.tokenInAccount ctx.permissionlessAuthority
  let permissionlessTokenOut := ctx.tokenOutAccount ctx.permissionlessAuthority
  w.ledger.loadAta permissionlessTokenIn
  w.ledger.loadAta permissionlessTokenOut
  let ledger ← ctx.loadTokenAccounts ctx.vaultAuthority w.ledger
  require (Seeds.offerVaultAuthority = ctx.vaultAuthority) (.anchor .requireKeysEqViolated)
  require (Seeds.permissionlessAuthority = ctx.permissionlessAuthority)
    (.anchor .requireKeysEqViolated)
  require (Seeds.mintAuthority = ctx.mintAuthority) (.anchor .requireKeysEqViolated)
  require (offer.tokenInMint = tokenInMint.key) (.offerCore .invalidTokenInMint)
  require (offer.tokenOutMint = tokenOutMint.key) (.offerCore .invalidTokenOutMint)
  require (offer.allowPermissionless = true) (.takeOfferPermissionless .permissionlessNotAllowed)
  verifyOfferApproval env offer approvalMessage programId ctx.user.key state.approver1
    state.approver2
  let result ← processOfferCore env offer tokenInAmount tokenInMint tokenOutMint
  let ledger ← transferTokens env.epoch (ctx.tokenInAccount ctx.user.key) permissionlessTokenIn
    ctx.user.key tokenInAmount ledger
  let ledger ← executeTokenOperations env.epoch
    (ctx.execParams Seeds.permissionlessAuthority state tokenInMint tokenOutMint result) ledger
  let ledger ← transferTokens env.epoch permissionlessTokenOut (ctx.tokenOutAccount ctx.user.key)
    Seeds.permissionlessAuthority result.tokenOutAmount ledger
  pure (w.setLedger ledger)

/-! ## What a take goes through -/

theorem TakeOffer.loadTokenAccounts_eq_ok {ctx : TakeOffer} {vaultAuthority : Pubkey}
    {l l' : Ledger} : ctx.loadTokenAccounts vaultAuthority l = .ok l' ↔
      l.HasAccount (ctx.tokenInAccount vaultAuthority) ∧
        l.HasAccount (ctx.tokenOutAccount vaultAuthority) ∧
        l.HasAccount (ctx.tokenInAccount ctx.user.key) ∧
        l.initIfNeeded (ctx.tokenOutAccount ctx.user.key) = .ok l' ∧
        l'.HasAccount (ctx.tokenInAccount ctx.boss) := by
  simp only [loadTokenAccounts, bind_eq_ok, Ledger.loadAta_eq_ok, pure_eq_ok]
  constructor
  · rintro ⟨_, hi, _, ho, _, hu, _, hl, _, hb, rfl⟩
    exact ⟨hi, ho, hu, hl, hb⟩
  · rintro ⟨hi, ho, hu, hl, hb⟩
    exact ⟨⟨⟩, hi, ⟨⟩, ho, ⟨⟩, hu, l', hl, ⟨⟩, hb, rfl⟩

/-- The checks of a take that do not depend on the route. -/
structure TakeChecks (env : Env) (ctx : TakeOffer) (tokenInAmount : UInt64)
    (approvalMessage : Option ApprovalMessage) (w : World) (offer : Offer) (state : State)
    (tokenInMint tokenOutMint : MintAccount) (ledger : Ledger) (result : OfferProcessResult) :
    Prop where
  offer_stored : w.offers.lookup ctx.offerPda = some offer
  state_stored : w.state = some state
  boss : state.boss.key = ctx.boss
  alive : state.isKilled = false
  tokenIn : w.ledger.mints.lookup ctx.tokenInMint = some tokenInMint.toMint
  tokenIn_key : tokenInMint.key = ctx.tokenInMint
  tokenIn_offer : offer.tokenInMint = ctx.tokenInMint
  tokenOut : w.ledger.mints.lookup ctx.tokenOutMint = some tokenOutMint.toMint
  tokenOut_key : tokenOutMint.key = ctx.tokenOutMint
  tokenOut_offer : offer.tokenOutMint = ctx.tokenOutMint
  accounts : ctx.loadTokenAccounts Seeds.offerVaultAuthority w.ledger = .ok ledger
  approved : verifyOfferApproval env offer approvalMessage programId ctx.user.key state.approver1
    state.approver2 = .ok ⟨⟩
  priced : processOfferCore env offer tokenInAmount tokenInMint tokenOutMint = .ok result

theorem takeOffer_eq_ok {env : Env} {ctx : TakeOffer} {amount : UInt64}
    {approval : Option ApprovalMessage} {w w' : World} :
    takeOffer env ctx amount approval w = .ok w' ↔
      ∃ offer state tokenInMint tokenOutMint ledger result ledger',
        TakeChecks env ctx amount approval w offer state tokenInMint tokenOutMint ledger result ∧
        executeTokenOperations env.epoch
          (ctx.execParams ctx.user.key state tokenInMint tokenOutMint result) ledger =
            .ok ledger' ∧
        w' = w.setLedger ledger' := by
  simp only [takeOffer, bind_eq_ok, World.loadOffer_eq_ok, World.loadState_eq_ok, require_eq_ok,
    Ledger.loadMint_eq_ok, pure_eq_ok]
  constructor
  · rintro ⟨offer, ho, state, hs, _, hb, _, hk, tokenIn, ⟨hi, hik⟩, _, hio, tokenOut, ⟨hj, hjk⟩,
      _, hjo, ledger, hacc, _, happ, result, hres, ledger', hexec, rfl⟩
    exact ⟨offer, state, tokenIn, tokenOut, ledger, result, ledger',
      ⟨ho, hs, hb, hk, hi, hik, hio.symm.trans hik, hj, hjk, hjo.symm.trans hjk, hacc, happ, hres⟩,
      hexec, rfl⟩
  · rintro ⟨offer, state, tokenIn, tokenOut, ledger, result, ledger', hc, hexec, rfl⟩
    exact ⟨offer, hc.offer_stored, state, hc.state_stored, ⟨⟩, hc.boss, ⟨⟩, hc.alive, tokenIn,
      ⟨hc.tokenIn, hc.tokenIn_key⟩, ⟨⟩, hc.tokenIn_key.trans hc.tokenIn_offer.symm, tokenOut,
      ⟨hc.tokenOut, hc.tokenOut_key⟩, ⟨⟩, hc.tokenOut_key.trans hc.tokenOut_offer.symm, ledger,
      hc.accounts, ⟨⟩, hc.approved, result, hc.priced, ledger', hexec, rfl⟩

theorem takeOfferPermissionless_eq_ok {env : Env} {ctx : TakeOfferPermissionless}
    {amount : UInt64} {approval : Option ApprovalMessage} {w w' : World} :
    takeOfferPermissionless env ctx amount approval w = .ok w' ↔
      ∃ offer state tokenInMint tokenOutMint ledger result ledger₁ ledger₂ ledger₃,
        TakeChecks env ctx.toTakeOffer amount approval w offer state tokenInMint tokenOutMint ledger
          result ∧
        offer.allowPermissionless = true ∧
        ctx.vaultAuthority = Seeds.offerVaultAuthority ∧
        ctx.permissionlessAuthority = Seeds.permissionlessAuthority ∧
        ctx.mintAuthority = Seeds.mintAuthority ∧
        w.ledger.HasAccount (ctx.tokenInAccount Seeds.permissionlessAuthority) ∧
        w.ledger.HasAccount (ctx.tokenOutAccount Seeds.permissionlessAuthority) ∧
        transferTokens env.epoch (ctx.tokenInAccount ctx.user.key)
          (ctx.tokenInAccount Seeds.permissionlessAuthority) ctx.user.key amount ledger =
            .ok ledger₁ ∧
        executeTokenOperations env.epoch
          (ctx.execParams Seeds.permissionlessAuthority state tokenInMint tokenOutMint result)
            ledger₁ = .ok ledger₂ ∧
        transferTokens env.epoch (ctx.tokenOutAccount Seeds.permissionlessAuthority)
          (ctx.tokenOutAccount ctx.user.key) Seeds.permissionlessAuthority result.tokenOutAmount
            ledger₂ = .ok ledger₃ ∧
        w' = w.setLedger ledger₃ := by
  obtain ⟨ctx, vaultAuthority, permissionlessAuthority, mintAuthority⟩ := ctx
  simp only [takeOfferPermissionless, bind_eq_ok, World.loadOffer_eq_ok, World.loadState_eq_ok,
    require_eq_ok, Ledger.loadMint_eq_ok, Ledger.loadAta_eq_ok, pure_eq_ok]
  constructor
  · rintro ⟨offer, ho, state, hs, _, hk, _, hb, tokenIn, ⟨hi, hik⟩, tokenOut, ⟨hj, hjk⟩, _, hpi,
      _, hpo, ledger, hacc, _, rfl, _, rfl, _, rfl, _, hio, _, hjo, _, hallow, _, happ, result,
      hres, l₁, h₁, l₂, h₂, l₃, h₃, rfl⟩
    exact ⟨offer, state, tokenIn, tokenOut, ledger, result, l₁, l₂, l₃,
      ⟨ho, hs, hb, hk, hi, hik, hio.trans hik, hj, hjk, hjo.trans hjk, hacc, happ, hres⟩, hallow,
      rfl, rfl, rfl, hpi, hpo, h₁, h₂, h₃, rfl⟩
  · rintro ⟨offer, state, tokenIn, tokenOut, ledger, result, l₁, l₂, l₃, hc, hallow, rfl, rfl, rfl,
      hpi, hpo, h₁, h₂, h₃, rfl⟩
    exact ⟨offer, hc.offer_stored, state, hc.state_stored, ⟨⟩, hc.alive, ⟨⟩, hc.boss, tokenIn,
      ⟨hc.tokenIn, hc.tokenIn_key⟩, tokenOut, ⟨hc.tokenOut, hc.tokenOut_key⟩, ⟨⟩, hpi, ⟨⟩, hpo,
      ledger, hc.accounts, ⟨⟩, rfl, ⟨⟩, rfl, ⟨⟩, rfl, ⟨⟩,
      hc.tokenIn_offer.trans hc.tokenIn_key.symm, ⟨⟩, hc.tokenOut_offer.trans hc.tokenOut_key.symm,
      ⟨⟩, hallow, ⟨⟩, hc.approved, result, hc.priced, l₁, h₁, l₂, h₂, l₃, h₃, rfl⟩

end OnreApp.Offers
