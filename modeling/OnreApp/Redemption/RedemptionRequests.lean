import OnreApp.Redemption.RedemptionOffers
import OnreApp.Redemption.RedemptionUtils

/-!
# Redemption requests

A request locks `token_in` in the redemption vault under the offer's next id. It is
resolved once: cancelled, which returns the tokens, or fulfilled at the current price.
-/
namespace OnreApp.Redemption

open Library.Checked Library.Outcome Offers Program Tokens Utils

structure CreateRedemptionRequest where
  redemptionOffer : RedemptionOfferPda
  redeemer : Signer
  tokenInMint : Pubkey
  tokenProgram : TokenProgram

def createRedemptionRequest (env : Env) (ctx : CreateRedemptionRequest) (amount : UInt64)
    (w : World) : Except Error World := do
  let state ← w.loadState
  require (state.isKilled = false) (.createRedemptionRequest .killSwitchActivated)
  let redemptionOffer ← loadSeededRedemptionOffer w ctx.redemptionOffer
  let requestPda : RedemptionRequestPda := ⟨ctx.redemptionOffer, redemptionOffer.requestCounter⟩
  require (w.redemptionRequests.lookup requestPda = none) (.anchor .accountAlreadyInUse)
  let tokenInMint ← w.ledger.loadMint ctx.tokenInMint
  require (tokenInMint.key = redemptionOffer.tokenInMint) (.createRedemptionRequest .invalidMint)
  let redeemerTokenAccount : Ata := ⟨ctx.redeemer.key, ctx.tokenInMint, ctx.tokenProgram⟩
  let vaultTokenAccount := redemptionVault ctx.tokenInMint ctx.tokenProgram
  w.ledger.loadAta redeemerTokenAccount
  w.ledger.loadAta vaultTokenAccount
  -- The underlying offer's address is derived, so it is never the default key.
  require (redemptionOffer.tokenOutMint ≠ Pubkey.default)
    (.createRedemptionRequest .invalidRedemptionOffer)
  let requestId := redemptionOffer.requestCounter
  let ledger ← transferTokens env.epoch redeemerTokenAccount vaultTokenAccount ctx.redeemer.key
    amount w.ledger
  let redemptionRequest : RedemptionRequest :=
    { offer := ctx.redemptionOffer, requestId, redeemer := ctx.redeemer, amount }
  let requestedRedemptions ← okOr
    (checkedAdd 128 redemptionOffer.requestedRedemptions amount.toNat)
    (.createRedemptionRequest .arithmeticOverflow)
  let requestCounter ← okOr (checkedAdd 64 redemptionOffer.requestCounter.toNat 1)
    (.createRedemptionRequest .arithmeticOverflow)
  let redemptionOffer :=
    { redemptionOffer with requestedRedemptions, requestCounter := UInt64.ofNat requestCounter }
  pure { w.setRedemptionOffer ctx.redemptionOffer redemptionOffer with
    redemptionRequests := w.redemptionRequests.insert requestPda redemptionRequest
    ledger
    events := .created requestPda ctx.redemptionOffer ctx.redeemer.key amount
      requestId :: w.events }

/-- `seeds = [seeds::REDEMPTION_REQUEST, redemption_request.offer,
redemption_request.request_id]` on the account stored at `k`. -/
def loadSeededRedemptionRequest (w : World) (k : RedemptionRequestPda) :
    Except Error RedemptionRequest := do
  let redemptionRequest ← w.loadRedemptionRequest k
  require (k = ⟨redemptionRequest.offer, redemptionRequest.requestId⟩) (.anchor .constraintSeeds)
  pure redemptionRequest

structure CancelRedemptionRequest where
  redemptionOffer : RedemptionOfferPda
  redemptionRequest : RedemptionRequestPda
  signer : Signer
  redeemer : Pubkey
  redemptionAdmin : Pubkey
  tokenInMint : Pubkey
  tokenProgram : TokenProgram

def cancelRedemptionRequest (env : Env) (ctx : CancelRedemptionRequest) (w : World) :
    Except Error World := do
  let state ← w.loadState
  require (state.isKilled = false) (.cancelRedemptionRequest .killSwitchActivated)
  let redemptionOffer ← loadSeededRedemptionOffer w ctx.redemptionOffer
  let redemptionRequest ← loadSeededRedemptionRequest w ctx.redemptionRequest
  require (redemptionRequest.offer = ctx.redemptionOffer) (.cancelRedemptionRequest .offerMismatch)
  -- `close = redemption_admin`: an account is not closed to itself.
  require (env.redemptionRequestAddress ctx.redemptionRequest ≠ ctx.redemptionAdmin)
    (.anchor .constraintClose)
  require (ctx.signer = state.boss ∨ ctx.signer.key = state.redemptionAdmin ∨
    ctx.signer = redemptionRequest.redeemer) (.cancelRedemptionRequest .unauthorized)
  require (ctx.redeemer = redemptionRequest.redeemer.key)
    (.cancelRedemptionRequest .invalidRedeemer)
  require (env.isWritable ctx.redemptionAdmin = true) (.anchor .constraintMut)
  require (ctx.redemptionAdmin = state.redemptionAdmin)
    (.cancelRedemptionRequest .invalidRedemptionAdmin)
  let tokenInMint ← w.ledger.loadMint ctx.tokenInMint
  require (tokenInMint.key = redemptionOffer.tokenInMint) (.cancelRedemptionRequest .invalidMint)
  let vaultTokenAccount := redemptionVault ctx.tokenInMint ctx.tokenProgram
  let redeemerTokenAccount : Ata := ⟨ctx.redeemer, ctx.tokenInMint, ctx.tokenProgram⟩
  w.ledger.loadAta vaultTokenAccount
  let ledger ← w.ledger.initIfNeeded redeemerTokenAccount
  let amount := redemptionRequest.amount
  let ledger ← transferTokens env.epoch vaultTokenAccount redeemerTokenAccount
    Seeds.redemptionOfferVaultAuthority amount ledger
  let requestedRedemptions ← okOr (checkedSub redemptionOffer.requestedRedemptions amount.toNat)
    (.cancelRedemptionRequest .arithmeticUnderflow)
  let redemptionOffer := { redemptionOffer with requestedRedemptions }
  pure { w.setRedemptionOffer ctx.redemptionOffer redemptionOffer with
    redemptionRequests := w.redemptionRequests.erase ctx.redemptionRequest
    ledger
    events := .cancelled ctx.redemptionRequest ctx.redemptionOffer redemptionRequest.redeemer.key
      amount ctx.signer.key :: w.events }

structure FulfillRedemptionRequest where
  boss : Pubkey
  offer : OfferPda
  redemptionOffer : RedemptionOfferPda
  redemptionRequest : RedemptionRequestPda
  tokenInMint : Pubkey
  tokenInProgram : TokenProgram
  tokenOutMint : Pubkey
  tokenOutProgram : TokenProgram
  redeemer : Pubkey
  redemptionAdmin : Signer

namespace FulfillRedemptionRequest

def vaultTokenIn (ctx : FulfillRedemptionRequest) : Ata :=
  redemptionVault ctx.tokenInMint ctx.tokenInProgram

def vaultTokenOut (ctx : FulfillRedemptionRequest) : Ata :=
  redemptionVault ctx.tokenOutMint ctx.tokenOutProgram

def userTokenOut (ctx : FulfillRedemptionRequest) : Ata :=
  ⟨ctx.redeemer, ctx.tokenOutMint, ctx.tokenOutProgram⟩

def bossTokenIn (ctx : FulfillRedemptionRequest) : Ata :=
  ⟨ctx.boss, ctx.tokenInMint, ctx.tokenInProgram⟩

def execParams (ctx : FulfillRedemptionRequest) (tokenInMint tokenOutMint : MintAccount)
    (result : RedemptionProcessResult) : ExecuteRedemptionOpsParams where
  tokenInMint := tokenInMint
  tokenInNetAmount := result.tokenInNetAmount
  tokenInFeeAmount := result.tokenInFeeAmount
  vaultTokenInAccount := ctx.vaultTokenIn
  bossTokenInAccount := ctx.bossTokenIn
  redemptionVaultAuthority := Seeds.redemptionOfferVaultAuthority
  tokenOutMint := tokenOutMint
  tokenOutAmount := result.tokenOutAmount
  vaultTokenOutAccount := ctx.vaultTokenOut
  userTokenOutAccount := ctx.userTokenOut
  mintAuthorityPda := Seeds.mintAuthority
  -- "No max supply cap for redemptions".
  tokenOutMaxSupply := 0

end FulfillRedemptionRequest

def fulfillRedemptionRequest (env : Env) (ctx : FulfillRedemptionRequest) (w : World) :
    Except Error World := do
  let state ← w.loadState
  require (state.boss.key = ctx.boss) (.fulfillRedemptionRequest .invalidBoss)
  require (state.isKilled = false) (.fulfillRedemptionRequest .killSwitchActivated)
  let offer ← w.loadOffer ctx.offer
  let redemptionOffer ← loadSeededRedemptionOffer w ctx.redemptionOffer
  require (redemptionOffer.offer = ctx.offer) (.fulfillRedemptionRequest .offerMismatch)
  let redemptionRequest ← loadSeededRedemptionRequest w ctx.redemptionRequest
  require (redemptionRequest.offer = ctx.redemptionOffer) (.fulfillRedemptionRequest .offerMismatch)
  w.ledger.loadAta ctx.vaultTokenIn
  w.ledger.loadAta ctx.vaultTokenOut
  let tokenInMint ← w.ledger.loadMint ctx.tokenInMint
  require (tokenInMint.key = redemptionOffer.tokenInMint)
    (.fulfillRedemptionRequest .invalidTokenInMint)
  let tokenOutMint ← w.ledger.loadMint ctx.tokenOutMint
  require (tokenOutMint.key = redemptionOffer.tokenOutMint)
    (.fulfillRedemptionRequest .invalidTokenOutMint)
  let ledger ← w.ledger.initIfNeeded ctx.userTokenOut
  let ledger ← ledger.initIfNeeded ctx.bossTokenIn
  require (ctx.redeemer = redemptionRequest.redeemer.key)
    (.fulfillRedemptionRequest .invalidRedeemer)
  require (ctx.redemptionAdmin.key = state.redemptionAdmin)
    (.fulfillRedemptionRequest .unauthorized)
  let tokenInAmount := redemptionRequest.amount
  let result ← processRedemptionCore env offer tokenInAmount tokenInMint tokenOutMint
    redemptionOffer.feeBasisPoints
  let ledger ← executeRedemptionOperations env.epoch
    (ctx.execParams tokenInMint tokenOutMint result) ledger
  let executedRedemptions ← okOr
    (checkedAdd 128 redemptionOffer.executedRedemptions tokenInAmount.toNat)
    (.fulfillRedemptionRequest .arithmeticOverflow)
  let requestedRedemptions ← okOr
    (checkedSub redemptionOffer.requestedRedemptions tokenInAmount.toNat)
    (.fulfillRedemptionRequest .arithmeticUnderflow)
  let redemptionOffer := { redemptionOffer with executedRedemptions, requestedRedemptions }
  pure { w.setRedemptionOffer ctx.redemptionOffer redemptionOffer with
    redemptionRequests := w.redemptionRequests.erase ctx.redemptionRequest
    ledger
    events := .fulfilled ctx.redemptionRequest ctx.redemptionOffer ctx.redeemer
      result.tokenInNetAmount result.tokenInFeeAmount result.tokenOutAmount result.price ::
        w.events }

/-! ## What a request goes through -/

variable {env : Env} {w w' : World}

/-- The offer after a request of `amount` under its next id. -/
def RedemptionOffer.request (o : RedemptionOffer) (amount : UInt64) : RedemptionOffer :=
  { o with
    requestedRedemptions := o.requestedRedemptions + amount.toNat
    requestCounter := UInt64.ofNat (o.requestCounter.toNat + 1) }

/-- The offer after an open request of `amount` is cancelled. -/
def RedemptionOffer.cancel (o : RedemptionOffer) (amount : UInt64) : RedemptionOffer :=
  { o with requestedRedemptions := o.requestedRedemptions - amount.toNat }

/-- The offer after an open request of `amount` is fulfilled. -/
def RedemptionOffer.fulfill (o : RedemptionOffer) (amount : UInt64) : RedemptionOffer :=
  { o with
    executedRedemptions := o.executedRedemptions + amount.toNat
    requestedRedemptions := o.requestedRedemptions - amount.toNat }

structure RequestCreated (env : Env) (ctx : CreateRedemptionRequest) (amount : UInt64)
    (w w' : World) (state : State) (o : RedemptionOffer) (ledger : Ledger) : Prop where
  state_stored : w.state = some state
  alive : state.isKilled = false
  offer_stored : w.redemptionOffers.lookup ctx.redemptionOffer = some o
  seeds : ctx.redemptionOffer = ⟨o.tokenInMint, o.tokenOutMint⟩
  fresh : w.redemptionRequests.lookup ⟨ctx.redemptionOffer, o.requestCounter⟩ = none
  tokenIn : ctx.tokenInMint = o.tokenInMint
  locked : transferTokens env.epoch ⟨ctx.redeemer.key, ctx.tokenInMint, ctx.tokenProgram⟩
    (redemptionVault ctx.tokenInMint ctx.tokenProgram) ctx.redeemer.key amount w.ledger = .ok ledger
  requested : o.requestedRedemptions + amount.toNat < 2 ^ 128
  counter : o.requestCounter.toNat + 1 < 2 ^ 64
  result : w' =
    { w.setRedemptionOffer ctx.redemptionOffer (RedemptionOffer.request o amount) with
      redemptionRequests := w.redemptionRequests.insert ⟨ctx.redemptionOffer, o.requestCounter⟩
        ⟨ctx.redemptionOffer, o.requestCounter, ctx.redeemer, amount⟩
      ledger
      events := .created ⟨ctx.redemptionOffer, o.requestCounter⟩ ctx.redemptionOffer
        ctx.redeemer.key amount o.requestCounter :: w.events }

theorem createRedemptionRequest_ok {ctx : CreateRedemptionRequest} {amount : UInt64}
    (h : createRedemptionRequest env ctx amount w = .ok w') :
    ∃ state o ledger, RequestCreated env ctx amount w w' state o ledger := by
  simp only [createRedemptionRequest, bind_eq_ok, World.loadState_eq_ok, require_eq_ok,
    loadSeededRedemptionOffer_eq_ok, Ledger.loadMint_eq_ok, okOr_eq_ok, checkedAdd_eq_some,
    pure_eq_ok] at h
  obtain ⟨state, hs, _, hk, o, ⟨ho, hseeds⟩, _, hfresh, m, ⟨_, hm⟩, _, hmint, _, _, _, _, _, _,
    ledger, hl, _, ⟨hr, rfl⟩, _, ⟨hc, rfl⟩, rfl⟩ := h
  exact ⟨state, o, ledger, hs, hk, ho, hseeds, hfresh, hm.symm.trans hmint, hl, hr, hc, rfl⟩

@[simp] theorem loadSeededRedemptionRequest_eq_ok {k : RedemptionRequestPda}
    {r : RedemptionRequest} : loadSeededRedemptionRequest w k = .ok r ↔
      w.redemptionRequests.lookup k = some r ∧ k = ⟨r.offer, r.requestId⟩ := by
  simp only [loadSeededRedemptionRequest, bind_eq_ok, World.loadRedemptionRequest_eq_ok,
    require_eq_ok, pure_eq_ok]
  constructor
  · rintro ⟨_, hr, _, hk, rfl⟩
    exact ⟨hr, hk⟩
  · rintro ⟨hr, hk⟩
    exact ⟨r, hr, ⟨⟩, hk, rfl⟩

theorem loadSeededRedemptionRequest_avoids {e : Error} {k : RedemptionRequestPda}
    (ha : ∀ c, .anchor c ≠ e) : Avoids e (loadSeededRedemptionRequest w k) := by
  refine avoids_bind (avoids_okOr _ (ha _)) fun _ _ => ?_
  exact avoids_bind (avoids_require _ (ha _)) fun _ _ => avoids_pure _ _

structure RequestCancelled (env : Env) (ctx : CancelRedemptionRequest) (w w' : World)
    (state : State) (o : RedemptionOffer) (r : RedemptionRequest) (ledger₁ ledger₂ : Ledger) :
    Prop where
  state_stored : w.state = some state
  alive : state.isKilled = false
  offer_stored : w.redemptionOffers.lookup ctx.redemptionOffer = some o
  seeds : ctx.redemptionOffer = ⟨o.tokenInMint, o.tokenOutMint⟩
  request_stored : w.redemptionRequests.lookup ctx.redemptionRequest = some r
  request_seeds : ctx.redemptionRequest = ⟨ctx.redemptionOffer, r.requestId⟩
  request_offer : r.offer = ctx.redemptionOffer
  authorized : ctx.signer = state.boss ∨ ctx.signer.key = state.redemptionAdmin ∨
    ctx.signer = r.redeemer
  redeemer : ctx.redeemer = r.redeemer.key
  redemptionAdmin : ctx.redemptionAdmin = state.redemptionAdmin
  writable : env.isWritable ctx.redemptionAdmin = true
  not_self : env.redemptionRequestAddress ctx.redemptionRequest ≠ ctx.redemptionAdmin
  tokenIn : ctx.tokenInMint = o.tokenInMint
  redeemerAccount : w.ledger.initIfNeeded ⟨ctx.redeemer, ctx.tokenInMint, ctx.tokenProgram⟩ =
    .ok ledger₁
  returned : transferTokens env.epoch (redemptionVault ctx.tokenInMint ctx.tokenProgram)
    ⟨ctx.redeemer, ctx.tokenInMint, ctx.tokenProgram⟩ Seeds.redemptionOfferVaultAuthority r.amount
      ledger₁ = .ok ledger₂
  requested : r.amount.toNat ≤ o.requestedRedemptions
  result : w' =
    { w.setRedemptionOffer ctx.redemptionOffer (RedemptionOffer.cancel o r.amount) with
      redemptionRequests := w.redemptionRequests.erase ctx.redemptionRequest
      ledger := ledger₂
      events := .cancelled ctx.redemptionRequest ctx.redemptionOffer r.redeemer.key r.amount
        ctx.signer.key :: w.events }

theorem cancelRedemptionRequest_ok {ctx : CancelRedemptionRequest}
    (h : cancelRedemptionRequest env ctx w = .ok w') :
    ∃ state o r ledger₁ ledger₂, RequestCancelled env ctx w w' state o r ledger₁ ledger₂ := by
  simp only [cancelRedemptionRequest, bind_eq_ok, World.loadState_eq_ok, require_eq_ok,
    loadSeededRedemptionOffer_eq_ok, loadSeededRedemptionRequest_eq_ok, Ledger.loadMint_eq_ok,
    okOr_eq_ok, checkedSub_eq_some, pure_eq_ok] at h
  obtain ⟨state, hs, _, hk, o, ⟨ho, hseeds⟩, r, ⟨hr, hrs⟩, _, hro, _, hself, _, hauth, _, hred, _,
    hwr, _, hadmin, m, ⟨_, hm⟩, _, hmint, _, _, l₁, h₁, l₂, h₂, _, ⟨hle, rfl⟩, rfl⟩ := h
  exact ⟨state, o, r, l₁, l₂, hs, hk, ho, hseeds, hr, hro ▸ hrs, hro, hauth, hred, hadmin, hwr,
    hself, hm.symm.trans hmint, h₁, h₂, hle, rfl⟩

structure RequestFulfilled (env : Env) (ctx : FulfillRedemptionRequest) (w w' : World)
    (state : State) (offer : Offer) (o : RedemptionOffer) (r : RedemptionRequest)
    (tokenInMint tokenOutMint : MintAccount) (result : RedemptionProcessResult)
    (ledger₁ ledger₂ ledger₃ : Ledger) : Prop where
  state_stored : w.state = some state
  boss : state.boss.key = ctx.boss
  alive : state.isKilled = false
  underlying_stored : w.offers.lookup ctx.offer = some offer
  offer_stored : w.redemptionOffers.lookup ctx.redemptionOffer = some o
  seeds : ctx.redemptionOffer = ⟨o.tokenInMint, o.tokenOutMint⟩
  underlying : o.offer = ctx.offer
  request_stored : w.redemptionRequests.lookup ctx.redemptionRequest = some r
  request_seeds : ctx.redemptionRequest = ⟨ctx.redemptionOffer, r.requestId⟩
  request_offer : r.offer = ctx.redemptionOffer
  tokenIn : w.ledger.mints.lookup ctx.tokenInMint = some tokenInMint.toMint
  tokenIn_key : tokenInMint.key = ctx.tokenInMint
  tokenIn_offer : ctx.tokenInMint = o.tokenInMint
  tokenOut : w.ledger.mints.lookup ctx.tokenOutMint = some tokenOutMint.toMint
  tokenOut_key : tokenOutMint.key = ctx.tokenOutMint
  tokenOut_offer : ctx.tokenOutMint = o.tokenOutMint
  vaultIn : w.ledger.HasAccount ctx.vaultTokenIn
  vaultOut : w.ledger.HasAccount ctx.vaultTokenOut
  userAccount : w.ledger.initIfNeeded ctx.userTokenOut = .ok ledger₁
  bossAccount : ledger₁.initIfNeeded ctx.bossTokenIn = .ok ledger₂
  redeemer : ctx.redeemer = r.redeemer.key
  authorized : ctx.redemptionAdmin.key = state.redemptionAdmin
  priced : processRedemptionCore env offer r.amount tokenInMint tokenOutMint o.feeBasisPoints =
    .ok result
  executed : executeRedemptionOperations env.epoch (ctx.execParams tokenInMint tokenOutMint result)
    ledger₂ = .ok ledger₃
  executed_fits : o.executedRedemptions + r.amount.toNat < 2 ^ 128
  requested : r.amount.toNat ≤ o.requestedRedemptions
  outcome : w' =
    { w.setRedemptionOffer ctx.redemptionOffer (RedemptionOffer.fulfill o r.amount) with
      redemptionRequests := w.redemptionRequests.erase ctx.redemptionRequest
      ledger := ledger₃
      events := .fulfilled ctx.redemptionRequest ctx.redemptionOffer ctx.redeemer
        result.tokenInNetAmount result.tokenInFeeAmount result.tokenOutAmount result.price ::
          w.events }

theorem fulfillRedemptionRequest_ok {ctx : FulfillRedemptionRequest}
    (h : fulfillRedemptionRequest env ctx w = .ok w') :
    ∃ state offer o r tokenInMint tokenOutMint result ledger₁ ledger₂ ledger₃,
      RequestFulfilled env ctx w w' state offer o r tokenInMint tokenOutMint result ledger₁ ledger₂
        ledger₃ := by
  simp only [fulfillRedemptionRequest, bind_eq_ok, World.loadState_eq_ok, World.loadOffer_eq_ok,
    require_eq_ok, loadSeededRedemptionOffer_eq_ok, loadSeededRedemptionRequest_eq_ok,
    Ledger.loadMint_eq_ok, Ledger.loadAta_eq_ok, okOr_eq_ok, checkedAdd_eq_some,
    checkedSub_eq_some, pure_eq_ok] at h
  obtain ⟨state, hs, _, hb, _, hk, offer, hoff, o, ⟨ho, hseeds⟩, _, hund, r, ⟨hr, hrs⟩, _, hro, _,
    hvi, _, hvo, mi, ⟨hmi, hmik⟩, _, hmio, mo, ⟨hmo, hmok⟩, _, hmoo, l₁, h₁, l₂, h₂, _, hred, _,
    hauth, result, hres, l₃, h₃, _, ⟨hadd, rfl⟩, _, ⟨hsub, rfl⟩, rfl⟩ := h
  exact ⟨state, offer, o, r, mi, mo, result, l₁, l₂, l₃, hs, hb, hk, hoff, ho, hseeds, hund, hr,
    hro ▸ hrs, hro, hmi, hmik, hmik.symm.trans hmio, hmo, hmok, hmok.symm.trans hmoo, hvi, hvo, h₁,
    h₂, hred, hauth, hres, h₃, hadd, hsub, rfl⟩

end OnreApp.Redemption
