import OnreApp.Offers.TakeOffer
import OnreApp.Redemption.RedemptionRequests

/-!
# What an exchange computes before it moves tokens

The price, the fee and the amounts of a take or of a fulfillment depend on the stored
accounts and the clock alone.
-/
namespace OnreApp.Offers

open Library.Outcome Program Tokens

/-- `process_offer_core` on the accounts of a take. -/
def takeQuote (env : Env) (ctx : TakeOffer) (tokenInAmount : UInt64) (w : World) :
    Except Error OfferProcessResult := do
  let offer ← w.loadOffer ctx.offerPda
  let tokenInMint ← w.ledger.loadMint ctx.tokenInMint
  let tokenOutMint ← w.ledger.loadMint ctx.tokenOutMint
  processOfferCore env offer tokenInAmount tokenInMint tokenOutMint

theorem takeQuote_eq_ok {env : Env} {ctx : TakeOffer} {amount : UInt64} {w : World}
    {result : OfferProcessResult} : takeQuote env ctx amount w = .ok result ↔
      ∃ offer tokenIn tokenOut, w.offers.lookup ctx.offerPda = some offer ∧
        (w.ledger.mints.lookup ctx.tokenInMint = some tokenIn.toMint ∧
          tokenIn.key = ctx.tokenInMint) ∧
        (w.ledger.mints.lookup ctx.tokenOutMint = some tokenOut.toMint ∧
          tokenOut.key = ctx.tokenOutMint) ∧
        processOfferCore env offer amount tokenIn tokenOut = .ok result := by
  simp only [takeQuote, bind_eq_ok, World.loadOffer_eq_ok, Ledger.loadMint_eq_ok]
  constructor
  · intro h
    obtain ⟨offer, ho, tokenIn, hi, tokenOut, hj, h⟩ := h
    exact ⟨offer, tokenIn, tokenOut, ho, hi, hj, h⟩
  · intro h
    obtain ⟨offer, tokenIn, tokenOut, ho, hi, hj, h⟩ := h
    exact ⟨offer, ho, tokenIn, hi, tokenOut, hj, h⟩

/-- A take that passes its checks exchanges what is quoted. -/
theorem TakeChecks.quote {env : Env} {ctx : TakeOffer} {amount : UInt64}
    {approval : Option Utils.ApprovalMessage} {w : World} {offer : Offer} {s : State}
    {tokenIn tokenOut : MintAccount} {l : Ledger} {result : OfferProcessResult}
    (h : TakeChecks env ctx amount approval w offer s tokenIn tokenOut l result) :
    takeQuote env ctx amount w = .ok result :=
  takeQuote_eq_ok.mpr ⟨offer, tokenIn, tokenOut, h.offer_stored, ⟨h.tokenIn, h.tokenIn_key⟩,
    ⟨h.tokenOut, h.tokenOut_key⟩, h.priced⟩

end OnreApp.Offers

namespace OnreApp.Redemption

open Library.Outcome Offers Program Tokens

/-- `process_redemption_core` on the accounts of a fulfillment. -/
def fulfillmentQuote (env : Env) (ctx : FulfillRedemptionRequest) (w : World) :
    Except Error RedemptionProcessResult := do
  let offer ← w.loadOffer ctx.offer
  let redemptionOffer ← w.loadRedemptionOffer ctx.redemptionOffer
  let redemptionRequest ← w.loadRedemptionRequest ctx.redemptionRequest
  let tokenInMint ← w.ledger.loadMint ctx.tokenInMint
  let tokenOutMint ← w.ledger.loadMint ctx.tokenOutMint
  processRedemptionCore env offer redemptionRequest.amount tokenInMint tokenOutMint
    redemptionOffer.feeBasisPoints

/-- A fulfillment that succeeds exchanges what is quoted. -/
theorem RequestFulfilled.quote {env : Env} {ctx : FulfillRedemptionRequest} {w w' : World}
    {s : State} {offer : Offer} {o : RedemptionOffer} {r : RedemptionRequest}
    {tokenIn tokenOut : MintAccount} {result : RedemptionProcessResult} {l₁ l₂ l₃ : Ledger}
    (h : RequestFulfilled env ctx w w' s offer o r tokenIn tokenOut result l₁ l₂ l₃) :
    fulfillmentQuote env ctx w = .ok result := by
  simp only [fulfillmentQuote, bind_eq_ok, World.loadOffer_eq_ok,
    World.loadRedemptionOffer_eq_ok, World.loadRedemptionRequest_eq_ok, Ledger.loadMint_eq_ok]
  exact ⟨offer, h.underlying_stored, o, h.offer_stored, r, h.request_stored, tokenIn,
    ⟨h.tokenIn, h.tokenIn_key⟩, tokenOut, ⟨h.tokenOut, h.tokenOut_key⟩, h.priced⟩

end OnreApp.Redemption
