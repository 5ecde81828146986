import OnreApp.Accounts
import OnreApp.Tokens.Calls

/-!
# What an instruction reads and writes

The program's accounts and the token ledger are the world that instructions change. The
environment of an instruction is what the runtime shows it besides: the clock, the
transaction it is part of, the accounts of other programs, which of them can be written, and
the addresses derived from seeds.
-/
namespace OnreApp.Program

open Library.FiniteStore Library.LittleEndian Library.Outcome Tokens

/-- The fields of `Clock` the program reads. -/
structure Clock where
  /-- `unix_timestamp as u64`, the only form in which it is read. -/
  unixTimestamp : UInt64
  epoch : UInt64

/-- A top-level instruction of the transaction, as the instructions sysvar lists it. -/
structure TxInstruction where
  programId : Pubkey
  accounts : List Pubkey
  data : List UInt8
  deriving DecidableEq

inductive UpgradeableLoaderState
  | programData (slot : UInt64) (upgradeAuthorityAddress : Option Pubkey)
  | other
  deriving DecidableEq

/-- An account of another program: its owner, and its data where `bincode` can read it as
a loader state. -/
structure RawAccount where
  owner : Pubkey
  loaderState : Option UpgradeableLoaderState

structure Env where
  clock : Clock
  instructions : List TxInstruction
  currentIndex : ℕ
  rawAccount : Pubkey → RawAccount
  /-- `Pubkey::find_program_address` under the program's own id. -/
  findProgramAddress : List (List UInt8) → Pubkey
  /-- Whether the runtime lets a transaction write an account. Sysvars, native programs, loaders
  and other executables stay read-only, whatever the transaction asks for. -/
  isWritable : Pubkey → Bool
  /-- The default key is the System Program's. -/
  system_readOnly : isWritable Pubkey.default = false

/-- `Clock::get()?.unix_timestamp as u64`. -/
def Env.now (env : Env) : UInt64 := env.clock.unixTimestamp

def Env.epoch (env : Env) : UInt64 := env.clock.epoch

/-- Seeds `[seeds::REDEMPTION_OFFER, token_in_mint, token_out_mint]`. -/
def Env.redemptionOfferAddress (env : Env) (k : RedemptionOfferPda) : Pubkey :=
  env.findProgramAddress
    [Seeds.redemptionOffer, k.tokenInMint.toBytes, k.tokenOutMint.toBytes]

/-- Seeds `[seeds::REDEMPTION_REQUEST, redemption_request.offer,
redemption_request.request_id.to_le_bytes()]`. -/
def Env.redemptionRequestAddress (env : Env) (k : RedemptionRequestPda) : Pubkey :=
  env.findProgramAddress
    [Seeds.redemptionRequest, (env.redemptionOfferAddress k.offer).toBytes,
      toLe 8 k.requestId.toNat]

/-- The events of the redemption instructions. -/
inductive RedemptionEvent
  | created (redemptionRequestPda : RedemptionRequestPda) (redemptionOfferPda : RedemptionOfferPda)
      (redeemer : Pubkey) (amount id : UInt64)
  | fulfilled (redemptionRequestPda : RedemptionRequestPda)
      (redemptionOfferPda : RedemptionOfferPda) (redeemer : Pubkey)
      (tokenInNetAmount tokenInFeeAmount tokenOutAmount currentPrice : UInt64)
  | cancelled (redemptionRequestPda : RedemptionRequestPda) (redemptionOffer : RedemptionOfferPda)
      (redeemer : Pubkey) (amount : UInt64) (cancelledBy : Pubkey)
  deriving DecidableEq

structure World where
  state : Option State
  offers : Store OfferPda Offer
  redemptionOffers : Store RedemptionOfferPda RedemptionOffer
  redemptionRequests : Store RedemptionRequestPda RedemptionRequest
  permissionlessAuthority : Option PermissionlessAuthority
  ledger : Ledger
  /-- Latest first. -/
  events : List RedemptionEvent

namespace World

def loadState (w : World) : Except Error State :=
  okOr w.state (.anchor .accountNotInitialized)

def loadOffer (w : World) (k : OfferPda) : Except Error Offer :=
  okOr (w.offers.lookup k) (.anchor .accountNotInitialized)

def loadRedemptionOffer (w : World) (k : RedemptionOfferPda) : Except Error RedemptionOffer :=
  okOr (w.redemptionOffers.lookup k) (.anchor .accountNotInitialized)

def loadRedemptionRequest (w : World) (k : RedemptionRequestPda) :
    Except Error RedemptionRequest :=
  okOr (w.redemptionRequests.lookup k) (.anchor .accountNotInitialized)

def setState (w : World) (s : State) : World := { w with state := some s }

def setOffer (w : World) (k : OfferPda) (o : Offer) : World :=
  { w with offers := w.offers.insert k o }

def setRedemptionOffer (w : World) (k : RedemptionOfferPda) (o : RedemptionOffer) : World :=
  { w with redemptionOffers := w.redemptionOffers.insert k o }

def setLedger (w : World) (l : Ledger) : World := { w with ledger := l }

variable {w : World}

@[simp] theorem loadState_eq_ok {s : State} : w.loadState = .ok s ↔ w.state = some s :=
  okOr_eq_ok _ _ _

@[simp] theorem loadOffer_eq_ok {k : OfferPda} {o : Offer} :
    w.loadOffer k = .ok o ↔ w.offers.lookup k = some o :=
  okOr_eq_ok _ _ _

@[simp] theorem loadRedemptionOffer_eq_ok {k : RedemptionOfferPda} {o : RedemptionOffer} :
    w.loadRedemptionOffer k = .ok o ↔ w.redemptionOffers.lookup k = some o :=
  okOr_eq_ok _ _ _

@[simp] theorem loadRedemptionRequest_eq_ok {k : RedemptionRequestPda} {r : RedemptionRequest} :
    w.loadRedemptionRequest k = .ok r ↔ w.redemptionRequests.lookup k = some r :=
  okOr_eq_ok _ _ _

end World

/-- `#[account(seeds = [seeds::STATE], bump = state.bump, has_one = boss)]` beside a
`boss: Signer`. -/
def loadBossState (w : World) (boss : Signer) : Except Error State := do
  let state ← w.loadState
  require (state.boss = boss) (.anchor .constraintHasOne)
  pure state

@[simp] theorem loadBossState_eq_ok {w : World} {boss : Signer} {s : State} :
    loadBossState w boss = .ok s ↔ w.state = some s ∧ s.boss = boss := by
  simp only [loadBossState, bind_eq_ok, World.loadState_eq_ok, require_eq_ok, pure_eq_ok]
  constructor
  · rintro ⟨s', hs, _, hb, rfl⟩
    exact ⟨hs, hb⟩
  · rintro ⟨hs, hb⟩
    exact ⟨s, hs, ⟨⟩, hb, rfl⟩

end OnreApp.Program
