/-!
# Error codes

One enumeration for each `#[error_code]` of the program, with the codes in source
order, and the failures that come from below it: Anchor's own account checks, the token
programs, and panics.
-/
namespace OnreApp

inductive OfferCoreError
  | offerNotFound | noActiveVector | overflowError | invalidTokenInMint | invalidTokenOutMint
  | approvalRequired
  deriving DecidableEq

inductive AddOfferVectorErrorCode
  | invalidTimeRange | zeroValue | startTimeInPast | duplicateStartTime | tooManyVectors
  | invalidAPR | invalidPriceFixDuration
  deriving DecidableEq

inductive DeleteOfferVectorErrorCode
  | vectorNotFound | startTimeInPast
  deriving DecidableEq

inductive MakeOfferErrorCode
  | accountFull | invalidFee | invalidTokenProgram
  deriving DecidableEq

inductive UpdateOfferFeeErrorCode
  | invalidFee | invalidTokenInMint | invalidTokenOutMint
  deriving DecidableEq

inductive TakeOfferErrorCode
  | invalidBoss | mathOverflow | killSwitchActivated
  deriving DecidableEq

inductive TakeOfferPermissionlessErrorCode
  | invalidBoss | killSwitchActivated | permissionlessNotAllowed
  deriving DecidableEq

inductive TokenUtilsErrorCode
  | mathOverflow | maxSupplyExceeded | transferFeeNotSupported | zeroPriceNotAllowed
  | decimalsExceedMax | resultOverflow
  deriving DecidableEq

inductive ApproverErrorCode
  | expired | wrongProgram | wrongUser | missingEd25519Ix | wrongIxProgram | badEd25519Accounts
  | malformedEd25519Ix | multipleSigs | wrongAuthority | msgMismatch | msgDeserialize
  deriving DecidableEq

inductive RedemptionCoreError
  | noActiveVector | overflowError
  deriving DecidableEq

inductive MakeRedemptionOfferErrorCode
  | unauthorized | invalidFee
  deriving DecidableEq

inductive CreateRedemptionRequestErrorCode
  | killSwitchActivated | arithmeticOverflow | invalidMint | invalidRedemptionOffer
  deriving DecidableEq

inductive FulfillRedemptionRequestErrorCode
  | unauthorized | invalidBoss | killSwitchActivated | offerMismatch | offerMintMismatch
  | invalidTokenInMint | invalidTokenOutMint | invalidRedeemer | arithmeticOverflow
  | arithmeticUnderflow
  deriving DecidableEq

inductive CancelRedemptionRequestErrorCode
  | unauthorized | killSwitchActivated | arithmeticUnderflow | invalidMint | invalidRedeemer
  | invalidRedemptionAdmin | offerMismatch
  deriving DecidableEq

inductive UpdateRedemptionOfferFeeErrorCode
  | unauthorized | invalidFee | noChange
  deriving DecidableEq

inductive AcceptBossErrorCode
  | noBossProposal | notProposedBoss
  deriving DecidableEq

inductive ProposeBossErrorCode
  | invalidBossAddress
  deriving DecidableEq

inductive AddAdminErrorCode
  | adminAlreadyExists | maxAdminsReached
  deriving DecidableEq

inductive RemoveAdminErrorCode
  | adminNotFound
  deriving DecidableEq

inductive AddApproverError
  | bothApproversFilled | invalidApprover | approverAlreadyExists
  deriving DecidableEq

inductive RemoveApproverError
  | notAnApprover | invalidApprover
  deriving DecidableEq

inductive SetKillSwitchErrorCode
  | onlyBossCanDisable | unauthorizedToEnable
  deriving DecidableEq

inductive SetRedemptionAdminErrorCode
  | noChange
  deriving DecidableEq

inductive CloseStateErrorCode
  | invalidStateOwner | invalidStatePda | invalidStateData | unauthorizedSigner
  | lamportOverflow
  deriving DecidableEq

inductive InitializeErrorCode
  | bossAlreadySet | wrongBoss | wrongOwner | immutableProgram | wrongProgramData
  | missingProgramData | deserializeProgramDataFailed | notProgramData
  deriving DecidableEq

inductive InitializePermissionlessErrorCode
  | invalidPermissionlessAccountName
  deriving DecidableEq

inductive MintToErrorCode
  | invalidOnycMint | noMintAuthority
  deriving DecidableEq

inductive TransferMintAuthorityToBossErrorCode
  | programNotMintAuthority
  deriving DecidableEq

inductive TransferMintAuthorityToProgramErrorCode
  | bossNotMintAuthority
  deriving DecidableEq

inductive GetAPYErrorCode
  | overflow | divByZero
  deriving DecidableEq

inductive GetCirculatingSupplyErrorCode
  | invalidVaultAccount
  deriving DecidableEq

inductive GetTVLErrorCode
  | overflow | invalidVaultAccount
  deriving DecidableEq

/-- Account checks that Anchor generates from the `#[account(..)]` attributes, and
`require_keys_eq!` without a code of its own. -/
inductive AnchorError
  | accountNotInitialized | accountAlreadyInUse | accountDidNotSerialize
  | constraintMut | constraintHasOne | constraintSeeds | constraintClose
  | constraintAssociated | requireKeysEqViolated
  deriving DecidableEq

inductive Error
  | offerCore (code : OfferCoreError)
  | addOfferVector (code : AddOfferVectorErrorCode)
  | deleteOfferVector (code : DeleteOfferVectorErrorCode)
  | makeOffer (code : MakeOfferErrorCode)
  | updateOfferFee (code : UpdateOfferFeeErrorCode)
  | takeOffer (code : TakeOfferErrorCode)
  | takeOfferPermissionless (code : TakeOfferPermissionlessErrorCode)
  | tokenUtils (code : TokenUtilsErrorCode)
  | approver (code : ApproverErrorCode)
  | redemptionCore (code : RedemptionCoreError)
  | makeRedemptionOffer (code : MakeRedemptionOfferErrorCode)
  | createRedemptionRequest (code : CreateRedemptionRequestErrorCode)
  | fulfillRedemptionRequest (code : FulfillRedemptionRequestErrorCode)
  | cancelRedemptionRequest (code : CancelRedemptionRequestErrorCode)
  | updateRedemptionOfferFee (code : UpdateRedemptionOfferFeeErrorCode)
  | acceptBoss (code : AcceptBossErrorCode)
  | proposeBoss (code : ProposeBossErrorCode)
  | addAdmin (code : AddAdminErrorCode)
  | removeAdmin (code : RemoveAdminErrorCode)
  | addApprover (code : AddApproverError)
  | removeApprover (code : RemoveApproverError)
  | setKillSwitch (code : SetKillSwitchErrorCode)
  | setRedemptionAdmin (code : SetRedemptionAdminErrorCode)
  | closeState (code : CloseStateErrorCode)
  | initializeState (code : InitializeErrorCode)
  | initializePermissionless (code : InitializePermissionlessErrorCode)
  | mintTo (code : MintToErrorCode)
  | transferMintAuthorityToBoss (code : TransferMintAuthorityToBossErrorCode)
  | transferMintAuthorityToProgram (code : TransferMintAuthorityToProgramErrorCode)
  | getAPY (code : GetAPYErrorCode)
  | getCirculatingSupply (code : GetCirculatingSupplyErrorCode)
  | getTVL (code : GetTVLErrorCode)
  | anchor (code : AnchorError)
  /-- A call into a token program failed, so the instruction did. -/
  | tokenProgram
  /-- An operation with overflow checks on, an index or an `unwrap` panicked. -/
  | panic
  deriving DecidableEq

end OnreApp
