import OnreApp.Utils.Approver
import OnreApp.Utils.Precompile

/-!
# The Ed25519 instruction of a client

A client writes the signature, the key and the message after one another behind the header,
and their places into it. The parser and the precompile find them there again, so an approval
encoded like this is verified and accepted.
-/
namespace OnreApp.Utils

open Library.LittleEndian Library.Outcome Program

/-- `Buffer.from([n & 0xFF, (n >> 8) & 0xFF])`. -/
def u16Bytes (n : ℕ) : List UInt8 := [UInt8.ofNat (n &&& 0xFF), UInt8.ofNat (n >>> 8 &&& 0xFF)]

def headerSize : ℕ := 16
def signatureOffset : ℕ := headerSize
def publicKeyOffset : ℕ := signatureOffset + 64
def messageOffset : ℕ := publicKeyOffset + 32

/-- The header of an instruction for one signature and a message of `size` bytes. -/
def ed25519Header (size : ℕ) : List UInt8 :=
  [1] ++ [0] ++ u16Bytes signatureOffset ++ [0xFF, 0xFF] ++ u16Bytes publicKeyOffset ++
    [0xFF, 0xFF] ++ u16Bytes messageOffset ++ u16Bytes size ++ [0xFF, 0xFF]

/-- The instruction data of `createEd25519Instruction`. -/
def createEd25519Instruction (signature : List UInt8) (publicKey : Pubkey)
    (message : List UInt8) : List UInt8 :=
  ed25519Header message.length ++ signature ++ publicKey.toBytes ++ message

/-! ## What the header says -/

theorem ofLe_u16Bytes {n : ℕ} (h : n < 2 ^ 16) : ofLe (u16Bytes n) = n := by
  have hlow : n &&& 0xFF = n % 256 := Nat.and_two_pow_sub_one_eq_mod n 8
  have hhigh : n >>> 8 &&& 0xFF = n / 256 % 256 := by
    rw [Nat.shiftRight_eq_div_pow]
    exact Nat.and_two_pow_sub_one_eq_mod _ 8
  simp only [u16Bytes, ofLe, hlow, hhigh, UInt8.toNat_ofNat']
  omega

@[simp] theorem length_ed25519Header (size : ℕ) : (ed25519Header size).length = 16 := rfl

/-- Bytes of a first part are read from it. -/
theorem headerU16_append {l r : List UInt8} {i : ℕ} (h : i + 2 ≤ l.length) :
    headerU16 (l ++ r) i = headerU16 l i := by
  unfold headerU16 slice
  rw [List.drop_append_of_le_length (by omega), List.take_append_of_le_length]
  rw [List.length_drop]
  omega

/-- A part is the range from where the parts before it end. -/
theorem slice_part {l m r : List UInt8} {offset size : ℕ} (hl : l.length = offset)
    (hm : m.length = size) : slice (l ++ m ++ r) offset size = m := by
  unfold slice
  rw [List.append_assoc, List.drop_left' hl, List.take_left' hm]

/-! ## Reading an instruction back -/

section Encoded

variable {signature message : List UInt8} {publicKey : Pubkey}

theorem headerU16_encoded {i : ℕ} (h : i ≤ 14) :
    headerU16 (createEd25519Instruction signature publicKey message) i =
      headerU16 (ed25519Header message.length) i := by
  unfold createEd25519Instruction
  rw [List.append_assoc, List.append_assoc, headerU16_append]
  rw [length_ed25519Header]
  omega

theorem length_encoded (publicKey : Pubkey) (message : List UInt8)
    (hs : signature.length = 64) :
    (createEd25519Instruction signature publicKey message).length = 112 + message.length := by
  simp only [createEd25519Instruction, List.length_append, length_ed25519Header, hs,
    Pubkey.length_toBytes]

/-- Where a client's instruction says its parts are. -/
theorem encoded_offsets (signature : List UInt8) (publicKey : Pubkey)
    (hm : message.length < 2 ^ 16) :
    headerU16 (createEd25519Instruction signature publicKey message) 2 = 16 ∧
      headerU16 (createEd25519Instruction signature publicKey message) 6 = 80 ∧
      headerU16 (createEd25519Instruction signature publicKey message) 10 = 112 ∧
      headerU16 (createEd25519Instruction signature publicKey message) 12 = message.length := by
  rw [headerU16_encoded (by decide), headerU16_encoded (by decide), headerU16_encoded (by decide),
    headerU16_encoded (by decide)]
  exact ⟨rfl, rfl, rfl, ofLe_u16Bytes hm⟩

theorem encoded_selfContained (hs : signature.length = 64) (hm : message.length < 2 ^ 16) :
    SelfContained (createEd25519Instruction signature publicKey message) := by
  obtain ⟨hsig, hkey, hmsg, hsize⟩ := encoded_offsets signature publicKey hm
  have hlen := length_encoded publicKey message hs
  have hhere : ofLe [0xFF, 0xFF] = u16Max := by decide
  exact {
    long := by omega
    single := rfl
    sigHere := (headerU16_encoded (by decide)).trans hhere
    pubkeyHere := (headerU16_encoded (by decide)).trans hhere
    msgHere := (headerU16_encoded (by decide)).trans hhere
    sigInside := by omega
    pubkeyInside := by omega
    msgInside := by omega }

/-- The parts of a client's instruction, at the places its header names. -/
theorem ownSignedMessage_encoded (publicKey : Pubkey) (hs : signature.length = 64)
    (hm : message.length < 2 ^ 16) :
    ownSignedMessage (createEd25519Instruction signature publicKey message) =
      { publicKey := publicKey.toBytes, message, signature } := by
  obtain ⟨hsig, hkey, hmsg, hsize⟩ := encoded_offsets signature publicKey hm
  have hkeyPart : slice (createEd25519Instruction signature publicKey message) 80 32 =
      publicKey.toBytes := by
    refine slice_part ?_ (Pubkey.length_toBytes publicKey)
    rw [List.length_append, length_ed25519Header, hs]
  have hmsgPart : slice (createEd25519Instruction signature publicKey message) 112
      message.length = message := by
    rw [← List.append_nil (createEd25519Instruction signature publicKey message)]
    refine slice_part ?_ rfl
    rw [List.length_append, List.length_append, length_ed25519Header, hs, Pubkey.length_toBytes]
  have hsigPart : slice (createEd25519Instruction signature publicKey message) 16 64 =
      signature := by
    unfold createEd25519Instruction
    rw [List.append_assoc]
    exact slice_part rfl hs
  unfold ownSignedMessage
  rw [hsig, hkey, hmsg, hsize, hkeyPart, hmsgPart, hsigPart]

theorem parseEd25519Ix_encoded (hs : signature.length = 64) (hm : message.length < 2 ^ 16) :
    parseEd25519Ix (createEd25519Instruction signature publicKey message) =
      .ok ⟨1, publicKey.toBytes, message⟩ := by
  have hparts := ownSignedMessage_encoded publicKey hs hm
  refine parseEd25519Ix_eq_ok.mpr ⟨encoded_selfContained hs hm, ?_⟩
  have hkey : slice (createEd25519Instruction signature publicKey message)
      (headerU16 (createEd25519Instruction signature publicKey message) 6) 32 =
        publicKey.toBytes := congrArg SignedMessage.publicKey hparts
  have hmsg : slice (createEd25519Instruction signature publicKey message)
      (headerU16 (createEd25519Instruction signature publicKey message) 10)
      (headerU16 (createEd25519Instruction signature publicKey message) 12) = message :=
    congrArg SignedMessage.message hparts
  rw [hkey, hmsg]

/-- The precompile verifies the signature the client made, for the same key and message. -/
theorem verifiedSignatures_encoded (valid : SignedMessage → Bool) (hs : signature.length = 64)
    (hm : message.length < 2 ^ 16) (instructionDatas : List (List UInt8)) :
    verifiedSignatures valid (createEd25519Instruction signature publicKey message)
        instructionDatas =
      if valid { publicKey := publicKey.toBytes, message, signature } then
        some [{ publicKey := publicKey.toBytes, message, signature }]
      else none := by
  have hparts := ownSignedMessage_encoded publicKey hs hm
  rw [verifiedSignatures_own (encoded_selfContained hs hm), hparts]

/-- A client's approval in the instruction before the current one is accepted. -/
theorem verifyApprovalMessageGeneric_encoded {env : Env} {i : ℕ} {msg : ApprovalMessage}
    {programId userPubkey approver approver1 approver2 : Pubkey}
    (hs : signature.length = 64) (hindex : env.currentIndex = i + 1)
    (hix : env.instructions[i]? = some
      ⟨ed25519ProgramId, [], createEd25519Instruction signature approver msg.serialize⟩)
    (hne : approver ≠ Pubkey.default) (happrover : approver = approver1 ∨ approver = approver2)
    (hprogram : msg.programId = programId) (huser : msg.userPubkey = userPubkey)
    (hexp : env.now ≤ msg.expiryUnix) :
    verifyApprovalMessageGeneric env programId userPubkey approver1 approver2 msg = .ok ⟨⟩ := by
  have hlen : msg.serialize.length < 2 ^ 16 := by
    simp [ApprovalMessage.serialize]
  have hparse : parseEd25519Ix (createEd25519Instruction signature approver msg.serialize) =
      .ok ⟨1, approver.toBytes, msg.serialize⟩ := parseEd25519Ix_encoded hs hlen
  have hkey : (approver1 ≠ Pubkey.default ∧ approver.toBytes = approver1.toBytes) ∨
      (approver2 ≠ Pubkey.default ∧ approver.toBytes = approver2.toBytes) := by
    rcases happrover with rfl | rfl
    · exact .inl ⟨hne, rfl⟩
    · exact .inr ⟨hne, rfl⟩
  have hbefore : env.instructions[env.currentIndex - 1]? = some
      ⟨ed25519ProgramId, [], createEd25519Instruction signature approver msg.serialize⟩ := by
    rw [hindex, Nat.add_sub_cancel, hix]
  have hdecode : ApprovalMessage.tryFromSlice msg.serialize = some msg :=
    ApprovalMessage.tryFromSlice_eq_some.mpr rfl
  simp only [verifyApprovalMessageGeneric, bind_eq_ok, require_eq_ok, okOr_eq_ok]
  exact ⟨⟨⟩, hexp, ⟨⟩, hprogram, ⟨⟩, huser, ⟨⟩, by omega, _, hbefore, ⟨⟩, rfl, ⟨⟩, rfl, _,
    congrArg (Except.mapError ParseFailure.toError) hparse, ⟨⟩, rfl, ⟨⟩, hkey, msg, hdecode, ⟨⟩,
    hprogram, ⟨⟩, huser, ⟨⟩, hexp, rfl⟩

end Encoded

/-- The parser accepts its grammar and nothing else, never indexes out of bounds, and undoes
the encoder. -/
theorem parseEd25519Ix_exact :
    (∀ data p, parseEd25519Ix data = .ok p ↔
      (16 ≤ data.length ∧ data[0]? = some 1 ∧ headerU16 data 4 = 0xFFFF ∧
        headerU16 data 8 = 0xFFFF ∧ headerU16 data 14 = 0xFFFF ∧
        headerU16 data 2 + 64 ≤ data.length ∧ headerU16 data 6 + 32 ≤ data.length ∧
        headerU16 data 10 + headerU16 data 12 ≤ data.length) ∧
      p = { sigCount := 1
            pubkey := slice data (headerU16 data 6) 32
            message := slice data (headerU16 data 10) (headerU16 data 12) }) ∧
    (∀ data, parseEd25519Ix data ≠ .error .outOfBounds) ∧
    ∀ (signature : List UInt8) (publicKey : Pubkey) (message : List UInt8),
      signature.length = 64 → message.length < 2 ^ 16 →
        parseEd25519Ix (createEd25519Instruction signature publicKey message) =
          .ok { sigCount := 1, pubkey := publicKey.toBytes, message } := by
  refine ⟨?_, parseEd25519Ix_avoids, fun _ _ _ hs hm => parseEd25519Ix_encoded hs hm⟩
  intro data p
  rw [parseEd25519Ix_eq_ok]
  refine and_congr_left fun _ => ⟨?_, ?_⟩
  · intro h
    exact ⟨h.long, h.single, h.sigHere, h.pubkeyHere, h.msgHere, h.sigInside, h.pubkeyInside,
      h.msgInside⟩
  · intro h
    obtain ⟨hlong, hsingle, hsig, hkey, hmsg, hsigIn, hkeyIn, hmsgIn⟩ := h
    exact ⟨hlong, hsingle, hsig, hkey, hmsg, hsigIn, hkeyIn, hmsgIn⟩

theorem parseEd25519Ix_exact_sample :
    parseEd25519Ix (createEd25519Instruction (List.replicate 64 7) programId [1, 2, 3]) =
      .ok { sigCount := 1, pubkey := programId.toBytes, message := [1, 2, 3] } :=
  parseEd25519Ix_exact.2.2 _ _ _ rfl (by decide)

end OnreApp.Utils
