import OnreApp.Program.Quotes
import OnreApp.Program.Step

/-!
# What an instruction logs

The events an instruction emits when it succeeds, with every field read from the accounts as
the instruction finds them. `initialize` and `initialize_permissionless_authority` emit
nothing; adding a vector emits one event for each vector it evicts first.
-/
namespace OnreApp.Program

open Library.Outcome Offers Redemption Tokens Utils

inductive Event
  | bossProposed (currentBoss proposedBoss : Pubkey)
  | bossAccepted (oldBoss newBoss : Pubkey)
  | adminAdded (admin boss : Pubkey)
  | adminRemoved (admin boss : Pubkey)
  | adminsCleared (boss : Pubkey)
  | approverAdded (approver boss : Pubkey)
  | approverRemoved (approver boss : Pubkey)
  | killSwitchToggled (enabled : Bool) (signer : Pubkey)
  | maxSupplyConfigured (oldMaxSupply newMaxSupply : UInt64)
  | onycMintUpdated (oldOnycMint newOnycMint : Pubkey)
  | redemptionAdminUpdated (oldRedemptionAdmin newRedemptionAdmin : Pubkey)
  /-- The state account's address is a constant, so the event names only the boss. -/
  | stateClosed (boss : Pubkey)
  | offerMade (offerPda : OfferPda) (tokenInMint tokenOutMint : Pubkey) (feeBasisPoints : UInt16)
      (boss : Pubkey) (needsApproval allowPermissionless : Bool)
  | offerVectorAdded (offerPda : OfferPda)
      (startTime baseTime basePrice apr priceFixDuration : UInt64)
  | offerVectorEvicted (offerTokenInMint offerTokenOutMint : Pubkey) (vectorStartTime : UInt64)
  | offerVectorDeleted (offerPda : OfferPda) (vectorStartTime : UInt64)
  | allOfferVectorsDeleted (offerPda : OfferPda) (vectorsDeletedCount : UInt8)
  | offerFeeUpdated (offerPda : OfferPda) (oldFeeBasisPoints newFeeBasisPoints : UInt16)
      (boss : Pubkey)
  | offerTaken (offerPda : OfferPda) (tokenInAmount tokenOutAmount feeAmount : UInt64)
      (user : Pubkey)
  | offerTakenPermissionless (offerPda : OfferPda)
      (tokenInAmount tokenOutAmount feeAmount : UInt64) (user : Pubkey)
  | offerVaultDeposit (mint : Pubkey) (amount : UInt64) (boss : Pubkey)
  | offerVaultWithdraw (mint : Pubkey) (amount : UInt64) (boss : Pubkey)
  | redemptionVaultDeposit (mint : Pubkey) (amount : UInt64) (boss : Pubkey)
  | redemptionVaultWithdraw (mint : Pubkey) (amount : UInt64) (boss : Pubkey)
  | onycTokensMinted (onycMint boss : Pubkey) (amount : UInt64)
  | mintAuthorityTransferredToBoss (mint oldAuthority newAuthority : Pubkey)
  | mintAuthorityTransferredToProgram (mint oldAuthority newAuthority : Pubkey)
  | redemptionOfferCreated (redemptionOfferPda : RedemptionOfferPda) (offer : OfferPda)
      (tokenInMint tokenOutMint : Pubkey) (feeBasisPoints : UInt16)
  | redemptionOfferFeeUpdated (redemptionOfferPda : RedemptionOfferPda)
      (oldFeeBasisPoints newFeeBasisPoints : UInt16) (boss : Pubkey)
  /-- The three events of a request, which the world keeps as well. -/
  | redemptionRequest (event : RedemptionEvent)
  | getNav (offerPda : OfferPda) (event : GetNAVEvent)
  | getApy (offerPda : OfferPda) (event : GetAPYEvent)
  | getNavAdjustment (offerPda : OfferPda) (event : GetNavAdjustmentEvent)
  | getTvl (offerPda : OfferPda) (event : GetTVLEvent)
  | getCirculatingSupply (event : GetCirculatingSupplyEvent)
  deriving DecidableEq

/-- The start times of the vectors `clean_old_vectors` empties, in slot order. -/
def evictedVectors (offer : Offer) (newVector : OfferVector) (currentTime : UInt64) :
    List UInt64 :=
  let activeVector := if newVector.startTime = currentTime then .ok newVector
    else findActiveVectorAt offer currentTime
  match activeVector with
  | .error _ => []
  | .ok active =>
    let prevVectorStartTime := match findActiveVectorAt offer (active.startTime - 1) with
      | .ok vector => vector.startTime
      | .error _ => 0
    (offer.slots.filter fun v => v.startTime ≠ 0 ∧ v.startTime ≠ active.startTime ∧
      v.startTime ≠ prevVectorStartTime ∧ v.startTime < active.startTime).map (·.startTime)

/-- The events of adding a vector: the evictions of the cleaning, then the addition. -/
def addVectorEvents (now : UInt64) (k : OfferPda) (args : AddOfferVectorArgs) (offer : Offer) :
    List Event :=
  let newVector := args.newVector now
  (evictedVectors offer newVector now).map
      (.offerVectorEvicted offer.tokenInMint offer.tokenOutMint) ++
    [.offerVectorAdded k newVector.startTime args.baseTime args.basePrice args.apr
      args.priceFixDuration]

def createEvent (ctx : CreateRedemptionRequest) (amount : UInt64) (w : World) :
    Except Error RedemptionEvent := do
  let redemptionOffer ← w.loadRedemptionOffer ctx.redemptionOffer
  let requestId := redemptionOffer.requestCounter
  pure (.created ⟨ctx.redemptionOffer, requestId⟩ ctx.redemptionOffer ctx.redeemer.key amount
    requestId)

def fulfillEvent (env : Env) (ctx : FulfillRedemptionRequest) (w : World) :
    Except Error RedemptionEvent := do
  let offer ← w.loadOffer ctx.offer
  let redemptionOffer ← w.loadRedemptionOffer ctx.redemptionOffer
  let redemptionRequest ← w.loadRedemptionRequest ctx.redemptionRequest
  let tokenInMint ← w.ledger.loadMint ctx.tokenInMint
  let tokenOutMint ← w.ledger.loadMint ctx.tokenOutMint
  let result ← processRedemptionCore env offer redemptionRequest.amount tokenInMint tokenOutMint
    redemptionOffer.feeBasisPoints
  pure (.fulfilled ctx.redemptionRequest ctx.redemptionOffer ctx.redeemer result.tokenInNetAmount
    result.tokenInFeeAmount result.tokenOutAmount result.price)

def cancelEvent (ctx : CancelRedemptionRequest) (w : World) : Except Error RedemptionEvent := do
  let redemptionRequest ← w.loadRedemptionRequest ctx.redemptionRequest
  pure (.cancelled ctx.redemptionRequest ctx.redemptionOffer redemptionRequest.redeemer.key
    redemptionRequest.amount ctx.signer.key)

/-- The events of an instruction, given that it succeeds. -/
def events (env : Env) (i : Instruction) (w : World) : Except Error (List Event) :=
  match i with
  | .initializeState _ | .initializePermissionlessAuthority _ _ => pure []
  | .offerVaultDeposit ctx amount => pure [.offerVaultDeposit ctx.tokenMint amount ctx.boss.key]
  | .offerVaultWithdraw ctx amount => pure [.offerVaultWithdraw ctx.tokenMint amount ctx.boss.key]
  | .redemptionVaultDeposit ctx amount =>
    pure [.redemptionVaultDeposit ctx.tokenMint amount ctx.boss.key]
  | .redemptionVaultWithdraw ctx amount =>
    pure [.redemptionVaultWithdraw ctx.tokenMint amount ctx.boss.key]
  | .makeOffer ctx fee needsApproval allowPermissionless =>
    pure [.offerMade ctx.offerPda ctx.tokenInMint ctx.tokenOutMint fee ctx.boss.key needsApproval
      allowPermissionless]
  | .addOfferVector ctx args => do
    let offer ← w.loadOffer ctx.offerPda
    pure (addVectorEvents env.now ctx.offerPda args offer)
  | .deleteOfferVector ctx vectorStartTime =>
    pure [.offerVectorDeleted ctx.offerPda vectorStartTime]
  | .deleteAllOfferVectors ctx => do
    let offer ← w.loadOffer ctx.offerPda
    let deletedCount := (offer.slots.filter fun v => v.startTime ≠ 0).length
    pure [.allOfferVectorsDeleted ctx.offerPda (UInt8.ofNat deletedCount)]
  | .updateOfferFee ctx newFeeBasisPoints => do
    let offer ← w.loadOffer ctx.offerPda
    pure [.offerFeeUpdated ctx.offerPda offer.feeBasisPoints newFeeBasisPoints ctx.boss.key]
  | .takeOffer ctx tokenInAmount _ => do
    let result ← takeQuote env ctx tokenInAmount w
    pure [.offerTaken ctx.offerPda result.tokenInNetAmount result.tokenOutAmount
      result.tokenInFeeAmount ctx.user.key]
  | .takeOfferPermissionless ctx tokenInAmount _ => do
    let result ← takeQuote env ctx.toTakeOffer tokenInAmount w
    pure [.offerTakenPermissionless ctx.offerPda result.tokenInNetAmount result.tokenOutAmount
      result.tokenInFeeAmount ctx.user.key]
  | .proposeBoss ctx newBoss => pure [.bossProposed ctx.boss.key newBoss]
  | .acceptBoss ctx => do
    let state ← w.loadState
    pure [.bossAccepted state.boss.key ctx.newBoss.key]
  | .addAdmin ctx newAdmin => pure [.adminAdded newAdmin ctx.boss.key]
  | .removeAdmin ctx adminToRemove => pure [.adminRemoved adminToRemove ctx.boss.key]
  | .clearAdmins ctx => pure [.adminsCleared ctx.boss.key]
  | .transferMintAuthorityToProgram ctx =>
    pure [.mintAuthorityTransferredToProgram ctx.mint ctx.boss.key Seeds.mintAuthority]
  | .transferMintAuthorityToBoss ctx =>
    pure [.mintAuthorityTransferredToBoss ctx.mint Seeds.mintAuthority ctx.boss.key]
  | .setKillSwitch ctx enable => pure [.killSwitchToggled enable ctx.signer.key]
  | .setOnycMint ctx => do
    let state ← w.loadState
    pure [.onycMintUpdated state.onycMint ctx.onycMint]
  | .setRedemptionAdmin _ newRedemptionAdmin => do
    let state ← w.loadState
    pure [.redemptionAdminUpdated state.redemptionAdmin newRedemptionAdmin]
  | .mintTo ctx amount => pure [.onycTokensMinted ctx.onycMint ctx.boss.key amount]
  | .getNav ctx => do pure [.getNav ctx.offerPda (← getNav env ctx w)]
  | .getApy ctx => do pure [.getApy ctx.offerPda (← getApy env ctx w)]
  | .getNavAdjustment ctx => do pure [.getNavAdjustment ctx.offerPda (← getNavAdjustment env ctx w)]
  | .getTvl ctx => do pure [.getTvl ctx.offerPda (← getTvl env ctx w)]
  | .getCirculatingSupply ctx => do pure [.getCirculatingSupply (← getCirculatingSupply env ctx w)]
  | .addApprover ctx approver => pure [.approverAdded approver ctx.boss.key]
  | .removeApprover ctx approver => pure [.approverRemoved approver ctx.boss.key]
  | .configureMaxSupply _ maxSupply => do
    let state ← w.loadState
    pure [.maxSupplyConfigured state.maxSupply maxSupply]
  | .closeState ctx => pure [.stateClosed ctx.boss.key]
  | .makeRedemptionOffer ctx fee =>
    pure [.redemptionOfferCreated ctx.redemptionOfferPda ctx.offerPda ctx.tokenInMint
      ctx.tokenOutMint fee]
  | .createRedemptionRequest ctx amount => do pure [.redemptionRequest (← createEvent ctx amount w)]
  | .fulfillRedemptionRequest ctx => do pure [.redemptionRequest (← fulfillEvent env ctx w)]
  | .cancelRedemptionRequest ctx => do pure [.redemptionRequest (← cancelEvent ctx w)]
  | .updateRedemptionOfferFee ctx newFeeBasisPoints => do
    let redemptionOffer ← w.loadRedemptionOffer ctx.redemptionOffer
    pure [.redemptionOfferFeeUpdated ctx.redemptionOffer redemptionOffer.feeBasisPoints
      newFeeBasisPoints ctx.boss.key]

/-- What an action adds to the log when it succeeds. -/
def emit (a : Action) (w : World) : List Event := ((events a.env a.instruction w).toOption).getD []

theorem emit_of_ok {env : Env} {i : Instruction} {w : World} {es : List Event}
    (h : events env i w = .ok es) : emit ⟨env, i⟩ w = es := by
  simp [emit, h, Except.toOption]

end OnreApp.Program
