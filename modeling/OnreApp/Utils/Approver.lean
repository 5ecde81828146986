import OnreApp.Program.World
import OnreApp.Utils.Ed25519Parser

/-!
# Approvals

An approval names a program, a user and an expiry. It is accepted as an argument when the
instruction before the current one had the Ed25519 precompile check an approver's
signature on its Borsh encoding.
-/
namespace OnreApp.Utils

open Library.LittleEndian Library.Outcome Program

structure ApprovalMessage where
  programId : Pubkey
  userPubkey : Pubkey
  expiryUnix : UInt64
  deriving DecidableEq

namespace ApprovalMessage

/-- The Borsh encoding: the fields in order, the integer in little-endian order. -/
def serialize (m : ApprovalMessage) : List UInt8 :=
  m.programId.toBytes ++ (m.userPubkey.toBytes ++ toLe 8 m.expiryUnix.toNat)

/-- The Borsh decoder, which has to consume the whole input. -/
def tryFromSlice (bs : List UInt8) : Option ApprovalMessage :=
  if bs.length = 72 then
    some { programId := .ofBytes (slice bs 0 32), userPubkey := .ofBytes (slice bs 32 32),
           expiryUnix := UInt64.ofNat (ofLe (slice bs 64 8)) }
  else none

/-- Decoding inverts encoding, and accepts nothing but encodings. -/
theorem tryFromSlice_eq_some {bs : List UInt8} {m : ApprovalMessage} :
    tryFromSlice bs = some m ↔ bs = m.serialize := by
  unfold tryFromSlice
  constructor
  · intro h
    split at h
    · next hlen =>
      have hm := Option.some.inj h
      have h0 : (slice bs 0 32).length = 32 := by simp [slice, hlen]
      have h1 : (slice bs 32 32).length = 32 := by simp [slice, hlen]
      have h2 : (slice bs 64 8).length = 8 := by simp [slice, hlen]
      have h8 : ofLe (slice bs 64 8) < 2 ^ 64 := by
        have := ofLe_lt (slice bs 64 8)
        rw [h2] at this
        exact this
      have hexp : toLe 8 (UInt64.ofNat (ofLe (slice bs 64 8))).toNat = slice bs 64 8 := by
        rw [UInt64.toNat_ofNat', Nat.mod_eq_of_lt h8]
        exact (eq_toLe h2 rfl).symm
      have hcat : slice bs 0 32 ++ (slice bs 32 32 ++ slice bs 64 8) = bs := by
        have hall : slice bs 64 8 = bs.drop 64 := List.take_of_length_le (by simp [hlen])
        rw [hall]
        unfold slice
        rw [List.drop_zero, ← List.drop_drop (i := 32) (j := 32), List.take_append_drop,
          List.take_append_drop]
      rw [← hm, serialize, Pubkey.toBytes_ofBytes h0, Pubkey.toBytes_ofBytes h1, hexp, hcat]
    · cases h
  · rintro rfl
    have hk : ∀ k : Pubkey, k.toBytes.length = 32 := Pubkey.length_toBytes
    have h0 : slice m.serialize 0 32 = m.programId.toBytes := by
      rw [slice, List.drop_zero, serialize, ← hk m.programId, List.take_left]
    have h1 : slice m.serialize 32 32 = m.userPubkey.toBytes := by
      rw [slice, serialize, List.drop_left' (hk _), ← hk m.userPubkey, List.take_left]
    have h2 : slice m.serialize 64 8 = toLe 8 m.expiryUnix.toNat := by
      rw [slice, serialize, ← List.append_assoc, List.drop_left' (by simp),
        List.take_of_length_le (by simp)]
    have hexp : ofLe (toLe 8 m.expiryUnix.toNat) = m.expiryUnix.toNat :=
      ofLe_toLe (lt_of_lt_of_eq m.expiryUnix.toNat_lt rfl)
    rw [if_pos (by simp [serialize]), h0, h1, h2, hexp, UInt64.ofNat_toNat,
      Pubkey.ofBytes_toBytes, Pubkey.ofBytes_toBytes]

end ApprovalMessage

/-- `.ok_or(ErrorCode::MalformedEd25519Ix)` on the parser's result. -/
def ParseFailure.toError : ParseFailure → Error
  | .none => .approver .malformedEd25519Ix
  | .outOfBounds => .panic

def verifyApprovalMessageGeneric (env : Env) (programId userPubkey approver1 approver2 : Pubkey)
    (msg : ApprovalMessage) : Except Error Unit := do
  require (env.now ≤ msg.expiryUnix) (.approver .expired)
  require (msg.programId = programId) (.approver .wrongProgram)
  require (msg.userPubkey = userPubkey) (.approver .wrongUser)
  require (0 < env.currentIndex) (.approver .missingEd25519Ix)
  let ix ← okOr env.instructions[env.currentIndex - 1]? (.approver .missingEd25519Ix)
  require (ix.programId = ed25519ProgramId) (.approver .wrongIxProgram)
  require (ix.accounts = []) (.approver .badEd25519Accounts)
  let parsed ← (parseEd25519Ix ix.data).mapError ParseFailure.toError
  require (parsed.sigCount = 1) (.approver .multipleSigs)
  let isApprover1 := approver1 ≠ Pubkey.default ∧ parsed.pubkey = approver1.toBytes
  let isApprover2 := approver2 ≠ Pubkey.default ∧ parsed.pubkey = approver2.toBytes
  require (isApprover1 ∨ isApprover2) (.approver .wrongAuthority)
  let signedMsg ← okOr (ApprovalMessage.tryFromSlice parsed.message) (.approver .msgDeserialize)
  require (signedMsg.programId = programId) (.approver .wrongProgram)
  require (signedMsg.userPubkey = userPubkey) (.approver .wrongUser)
  require (env.now ≤ signedMsg.expiryUnix) (.approver .expired)
  require (signedMsg = msg) (.approver .msgMismatch)

theorem verifyApprovalMessageGeneric_avoids {e : Error} {env : Env}
    {programId userPubkey approver1 approver2 : Pubkey} {msg : ApprovalMessage}
    (ha : ∀ c, .approver c ≠ e) (hp : .panic ≠ e) :
    Avoids e (verifyApprovalMessageGeneric env programId userPubkey approver1 approver2 msg) := by
  refine avoids_bind (avoids_require _ (ha _)) fun _ _ => ?_
  refine avoids_bind (avoids_require _ (ha _)) fun _ _ => ?_
  refine avoids_bind (avoids_require _ (ha _)) fun _ _ => ?_
  refine avoids_bind (avoids_require _ (ha _)) fun _ _ => ?_
  refine avoids_bind (avoids_okOr _ (ha _)) fun ix _ => ?_
  refine avoids_bind (avoids_require _ (ha _)) fun _ _ => ?_
  refine avoids_bind (avoids_require _ (ha _)) fun _ _ => ?_
  refine avoids_bind ?_ fun _ _ => ?_
  · cases parseEd25519Ix ix.data with
    | ok p => exact avoids_ok e p
    | error failure =>
      cases failure with
      | none => exact avoids_error (ha _)
      | outOfBounds => exact avoids_error hp
  · refine avoids_bind (avoids_require _ (ha _)) fun _ _ => ?_
    refine avoids_bind (avoids_require _ (ha _)) fun _ _ => ?_
    refine avoids_bind (avoids_okOr _ (ha _)) fun _ _ => ?_
    refine avoids_bind (avoids_require _ (ha _)) fun _ _ => ?_
    refine avoids_bind (avoids_require _ (ha _)) fun _ _ => ?_
    refine avoids_bind (avoids_require _ (ha _)) fun _ _ => ?_
    exact avoids_require _ (ha _)

end OnreApp.Utils
