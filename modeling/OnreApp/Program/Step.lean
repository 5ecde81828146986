import OnreApp.Library.Run
import OnreApp.Offers.TakeOffer
import OnreApp.Program.Initialization
import OnreApp.Program.MarketInfo
import OnreApp.Program.MintAuthority
import OnreApp.Program.VaultOperations
import OnreApp.Redemption.RedemptionRequests

/-!
# The program

Every entry point of the program as one step on the world, and the runs of such steps.
-/
namespace OnreApp.Program

open Library.Run Offers Redemption Utils

inductive Instruction
  | initializeState (ctx : Initialize)
  | initializePermissionlessAuthority (ctx : InitializePermissionlessAuthority) (name : String)
  | offerVaultDeposit (ctx : VaultAccounts) (amount : UInt64)
  | offerVaultWithdraw (ctx : VaultAccounts) (amount : UInt64)
  | redemptionVaultDeposit (ctx : VaultAccounts) (amount : UInt64)
  | redemptionVaultWithdraw (ctx : VaultAccounts) (amount : UInt64)
  | makeOffer (ctx : MakeOffer) (feeBasisPoints : UInt16) (needsApproval allowPermissionless : Bool)
  | addOfferVector (ctx : AddOfferVector) (args : AddOfferVectorArgs)
  | deleteOfferVector (ctx : DeleteOfferVector) (vectorStartTime : UInt64)
  | deleteAllOfferVectors (ctx : DeleteAllOfferVectors)
  | updateOfferFee (ctx : UpdateOfferFee) (newFeeBasisPoints : UInt16)
  | takeOffer (ctx : TakeOffer) (tokenInAmount : UInt64)
      (approvalMessage : Option ApprovalMessage)
  | takeOfferPermissionless (ctx : TakeOfferPermissionless) (tokenInAmount : UInt64)
      (approvalMessage : Option ApprovalMessage)
  | proposeBoss (ctx : BossAccounts) (newBoss : Pubkey)
  | acceptBoss (ctx : AcceptBoss)
  | addAdmin (ctx : BossAccounts) (newAdmin : Pubkey)
  | removeAdmin (ctx : BossAccounts) (adminToRemove : Pubkey)
  | clearAdmins (ctx : BossAccounts)
  | transferMintAuthorityToProgram (ctx : TransferMintAuthority)
  | transferMintAuthorityToBoss (ctx : TransferMintAuthority)
  | setKillSwitch (ctx : SetKillSwitch) (enable : Bool)
  | setOnycMint (ctx : SetOnycMint)
  | setRedemptionAdmin (ctx : BossAccounts) (newRedemptionAdmin : Pubkey)
  | mintTo (ctx : MintTo) (amount : UInt64)
  | getNav (ctx : OfferView)
  | getApy (ctx : OfferView)
  | getNavAdjustment (ctx : OfferView)
  | getTvl (ctx : GetTVL)
  | getCirculatingSupply (ctx : GetCirculatingSupply)
  | addApprover (ctx : BossAccounts) (approver : Pubkey)
  | removeApprover (ctx : BossAccounts) (approver : Pubkey)
  | configureMaxSupply (ctx : BossAccounts) (maxSupply : UInt64)
  | closeState (ctx : CloseState)
  | makeRedemptionOffer (ctx : MakeRedemptionOffer) (feeBasisPoints : UInt16)
  | createRedemptionRequest (ctx : CreateRedemptionRequest) (amount : UInt64)
  | fulfillRedemptionRequest (ctx : FulfillRedemptionRequest)
  | cancelRedemptionRequest (ctx : CancelRedemptionRequest)
  | updateRedemptionOfferFee (ctx : UpdateRedemptionOfferFee) (newFeeBasisPoints : UInt16)

namespace Instruction

/-- The signatures an instruction requires. -/
def signer : Instruction → Option Signer
  | initializeState ctx => some ctx.boss
  | initializePermissionlessAuthority ctx _ => some ctx.boss
  | offerVaultDeposit ctx _ | offerVaultWithdraw ctx _ | redemptionVaultDeposit ctx _
  | redemptionVaultWithdraw ctx _ => some ctx.boss
  | makeOffer ctx _ _ _ => some ctx.boss
  | addOfferVector ctx _ | deleteOfferVector ctx _ | deleteAllOfferVectors ctx
  | updateOfferFee ctx _ => some ctx.boss
  | takeOffer ctx _ _ => some ctx.user
  | takeOfferPermissionless ctx _ _ => some ctx.user
  | acceptBoss ctx => some ctx.newBoss
  | proposeBoss ctx _ | addAdmin ctx _ | removeAdmin ctx _ | clearAdmins ctx
  | setRedemptionAdmin ctx _ | addApprover ctx _ | removeApprover ctx _
  | configureMaxSupply ctx _ => some ctx.boss
  | transferMintAuthorityToProgram ctx | transferMintAuthorityToBoss ctx => some ctx.boss
  | setKillSwitch ctx _ => some ctx.signer
  | setOnycMint ctx => some ctx.boss
  | mintTo ctx _ => some ctx.boss
  | getNav _ | getApy _ | getNavAdjustment _ | getTvl _ | getCirculatingSupply _ => none
  | closeState ctx => some ctx.boss
  | makeRedemptionOffer ctx _ => some ctx.signer
  | createRedemptionRequest ctx _ => some ctx.redeemer
  | fulfillRedemptionRequest ctx => some ctx.redemptionAdmin
  | cancelRedemptionRequest ctx => some ctx.signer
  | updateRedemptionOfferFee ctx _ => some ctx.boss

end Instruction

/-- A view leaves the world as it was. -/
def view {α : Type} (result : Except Error α) (w : World) : Except Error World := do
  let _ ← result
  pure w

def execute (env : Env) : Instruction → World → Except Error World
  | .initializeState ctx => initializeState env ctx
  | .initializePermissionlessAuthority ctx name => initializePermissionlessAuthority ctx name
  | .offerVaultDeposit ctx amount => offerVaultDeposit env ctx amount
  | .offerVaultWithdraw ctx amount => offerVaultWithdraw env ctx amount
  | .redemptionVaultDeposit ctx amount => redemptionVaultDeposit env ctx amount
  | .redemptionVaultWithdraw ctx amount => redemptionVaultWithdraw env ctx amount
  | .makeOffer ctx fee needsApproval allowPermissionless =>
    makeOffer ctx fee needsApproval allowPermissionless
  | .addOfferVector ctx args => addOfferVector env ctx args
  | .deleteOfferVector ctx vectorStartTime => deleteOfferVector env ctx vectorStartTime
  | .deleteAllOfferVectors ctx => deleteAllOfferVectors ctx
  | .updateOfferFee ctx fee => updateOfferFee ctx fee
  | .takeOffer ctx amount approvalMessage => takeOffer env ctx amount approvalMessage
  | .takeOfferPermissionless ctx amount approvalMessage =>
    takeOfferPermissionless env ctx amount approvalMessage
  | .proposeBoss ctx newBoss => proposeBoss ctx newBoss
  | .acceptBoss ctx => acceptBoss ctx
  | .addAdmin ctx newAdmin => addAdmin ctx newAdmin
  | .removeAdmin ctx adminToRemove => removeAdmin ctx adminToRemove
  | .clearAdmins ctx => clearAdmins ctx
  | .transferMintAuthorityToProgram ctx => transferMintAuthorityToProgram ctx
  | .transferMintAuthorityToBoss ctx => transferMintAuthorityToBoss ctx
  | .setKillSwitch ctx enable => setKillSwitch ctx enable
  | .setOnycMint ctx => setOnycMint ctx
  | .setRedemptionAdmin ctx newRedemptionAdmin => setRedemptionAdmin ctx newRedemptionAdmin
  | .mintTo ctx amount => mintTo ctx amount
  | .getNav ctx => fun w => view (getNav env ctx w) w
  | .getApy ctx => fun w => view (getApy env ctx w) w
  | .getNavAdjustment ctx => fun w => view (getNavAdjustment env ctx w) w
  | .getTvl ctx => fun w => view (getTvl env ctx w) w
  | .getCirculatingSupply ctx => fun w => view (getCirculatingSupply env ctx w) w
  | .addApprover ctx approver => addApprover ctx approver
  | .removeApprover ctx approver => removeApprover ctx approver
  | .configureMaxSupply ctx maxSupply => configureMaxSupply ctx maxSupply
  | .closeState ctx => closeState ctx
  | .makeRedemptionOffer ctx fee => makeRedemptionOffer ctx fee
  | .createRedemptionRequest ctx amount => createRedemptionRequest env ctx amount
  | .fulfillRedemptionRequest ctx => fulfillRedemptionRequest env ctx
  | .cancelRedemptionRequest ctx => cancelRedemptionRequest env ctx
  | .updateRedemptionOfferFee ctx fee => updateRedemptionOfferFee ctx fee

/-- An instruction in the environment it is executed in. -/
structure Action where
  env : Env
  instruction : Instruction

def step (a : Action) (w : World) : Except Error World := execute a.env a.instruction w

end OnreApp.Program
