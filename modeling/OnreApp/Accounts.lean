import Mathlib.Data.Vector.Basic
import OnreApp.Constants

/-!
# Program accounts

The records the program stores, less the bumps and reserved bytes. A data account that
lives at a program-derived address is named here by its seeds: distinct seeds are
distinct addresses.
-/
namespace OnreApp

/-- `seeds::OFFER, token_in_mint, token_out_mint`. -/
structure OfferPda where
  tokenInMint : Pubkey
  tokenOutMint : Pubkey
  deriving DecidableEq

/-- `seeds::REDEMPTION_OFFER, token_in_mint, token_out_mint`. -/
structure RedemptionOfferPda where
  tokenInMint : Pubkey
  tokenOutMint : Pubkey
  deriving DecidableEq

/-- `seeds::REDEMPTION_REQUEST, redemption_offer, request_counter`. -/
structure RedemptionRequestPda where
  offer : RedemptionOfferPda
  requestId : UInt64
  deriving DecidableEq

/-- Governance and configuration. The boss is written only from a signer, so it is never
one of the program's own authorities; the proposed boss is any key. -/
structure State where
  boss : ExternalKey
  proposedBoss : Pubkey
  isKilled : Bool
  onycMint : Pubkey
  admins : List.Vector Pubkey maxAdmins
  approver1 : Pubkey
  approver2 : Pubkey
  maxSupply : UInt64
  redemptionAdmin : Pubkey

structure PermissionlessAuthority where
  name : String

/-- A pricing vector; a slot whose `startTime` is zero is empty. -/
structure OfferVector where
  startTime : UInt64
  baseTime : UInt64
  basePrice : UInt64
  apr : UInt64
  priceFixDuration : UInt64
  deriving DecidableEq

/-- `OfferVector::default()`, an empty slot. -/
protected def OfferVector.default : OfferVector := ⟨0, 0, 0, 0, 0⟩

structure Offer where
  tokenInMint : Pubkey
  tokenOutMint : Pubkey
  vectors : List.Vector OfferVector maxVectors
  feeBasisPoints : UInt16
  needsApprovalFlag : UInt8
  allowPermissionlessFlag : UInt8

namespace Offer

def needsApproval (o : Offer) : Bool := o.needsApprovalFlag ≠ 0

def setApproval (o : Offer) (needsApproval : Bool) : Offer :=
  { o with needsApprovalFlag := if needsApproval then 1 else 0 }

def allowPermissionless (o : Offer) : Bool := o.allowPermissionlessFlag ≠ 0

def setPermissionless (o : Offer) (allowPermissionless : Bool) : Offer :=
  { o with allowPermissionlessFlag := if allowPermissionless then 1 else 0 }

/-- The slots, first one first. -/
def slots (o : Offer) : List OfferVector := o.vectors.toList

/-- `offer.vectors[i] = v`. -/
def setSlot (o : Offer) (i : ℕ) (v : OfferVector) : Offer :=
  { o with vectors := ⟨o.slots.set i v, (List.length_set ..).trans o.vectors.2⟩ }

/-- Apply `f` to every slot. -/
def mapSlots (o : Offer) (f : OfferVector → OfferVector) : Offer :=
  { o with vectors := o.vectors.map f }

@[simp] theorem length_slots (o : Offer) : o.slots.length = maxVectors := o.vectors.2

@[simp] theorem slots_setSlot (o : Offer) (i : ℕ) (v : OfferVector) :
    (o.setSlot i v).slots = o.slots.set i v := rfl

@[simp] theorem slots_mapSlots (o : Offer) (f : OfferVector → OfferVector) :
    (o.mapSlots f).slots = o.slots.map f := List.Vector.toList_map _ _

end Offer

/-- A redemption offer. `executedRedemptions` and `requestedRedemptions` are 128-bit
counters, written only through checked additions and subtractions. -/
structure RedemptionOffer where
  offer : OfferPda
  tokenInMint : Pubkey
  tokenOutMint : Pubkey
  executedRedemptions : ℕ
  requestedRedemptions : ℕ
  feeBasisPoints : UInt16
  requestCounter : UInt64
  deriving DecidableEq

/-- A redemption request. The redeemer signed its creation. -/
structure RedemptionRequest where
  offer : RedemptionOfferPda
  requestId : UInt64
  redeemer : ExternalKey
  amount : UInt64
  deriving DecidableEq

end OnreApp
