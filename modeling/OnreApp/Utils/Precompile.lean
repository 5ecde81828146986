import OnreApp.Program.World
import OnreApp.Utils.Ed25519Parser

/-!
# The Ed25519 precompile

What the runtime verifies before it executes a transaction. The precompile reads, for each
signature, a record of 14 bytes from byte 2 on, and takes the parts it names from its own
instruction or from another one. Whether a signature is valid is a parameter.
-/
namespace OnreApp.Utils

open Program

structure SignedMessage where
  publicKey : List UInt8
  message : List UInt8
  signature : List UInt8
  deriving DecidableEq

/-- The bytes `offset .. offset + size` of the instruction with the given index. -/
def getDataSlice (data : List UInt8) (instructionDatas : List (List UInt8))
    (instructionIndex offset size : ℕ) : Option (List UInt8) := do
  let instruction ← if instructionIndex = u16Max then some data
    else instructionDatas[instructionIndex]?
  if offset + size ≤ instruction.length then some (slice instruction offset size) else none

/-- The parts that the record from byte `start` on names. -/
def readSignature (data : List UInt8) (instructionDatas : List (List UInt8)) (start : ℕ) :
    Option SignedMessage := do
  let signature ← getDataSlice data instructionDatas (headerU16 data (start + 2))
    (headerU16 data start) 64
  let publicKey ← getDataSlice data instructionDatas (headerU16 data (start + 6))
    (headerU16 data (start + 4)) 32
  let message ← getDataSlice data instructionDatas (headerU16 data (start + 12))
    (headerU16 data (start + 8)) (headerU16 data (start + 10))
  some { publicKey, message, signature }

/-- The signatures the precompile verifies; `none` if it fails. -/
def verifiedSignatures (valid : SignedMessage → Bool) (data : List UInt8)
    (instructionDatas : List (List UInt8)) : Option (List SignedMessage) := do
  let numSignatures ← data[0]?
  if data.length < 2 ∨ (numSignatures = 0 ∧ 2 < data.length) ∨
    data.length < 2 + 14 * numSignatures.toNat then none
  else
    let signatures ← (List.range numSignatures.toNat).mapM fun i =>
      readSignature data instructionDatas (2 + 14 * i)
    if signatures.all valid then some signatures else none

/-- A transaction executes only if every precompile instruction in it succeeds. -/
def PrecompilesPassed (valid : SignedMessage → Bool) (env : Env) : Prop :=
  ∀ ix ∈ env.instructions, ix.programId = ed25519ProgramId →
    (verifiedSignatures valid ix.data (env.instructions.map (·.data))).isSome = true

instance (valid : SignedMessage → Bool) (env : Env) : Decidable (PrecompilesPassed valid env) :=
  inferInstanceAs (Decidable (∀ ix ∈ env.instructions, _))

/-! ## Self-contained instructions -/

/-- The signed message inside the instruction, where the program's parser looks for it. -/
def ownSignedMessage (data : List UInt8) : SignedMessage where
  publicKey := slice data (headerU16 data 6) 32
  message := slice data (headerU16 data 10) (headerU16 data 12)
  signature := slice data (headerU16 data 2) 64

theorem getDataSlice_own {data : List UInt8} {instructionDatas : List (List UInt8)}
    {offset size : ℕ} (h : offset + size ≤ data.length) :
    getDataSlice data instructionDatas u16Max offset size = some (slice data offset size) := by
  show (if offset + size ≤ data.length then some (slice data offset size) else none) = _
  exact if_pos h

theorem readSignature_own {data : List UInt8} (h : SelfContained data)
    (instructionDatas : List (List UInt8)) :
    readSignature data instructionDatas 2 = some (ownSignedMessage data) := by
  have hs : getDataSlice data instructionDatas (headerU16 data 4) (headerU16 data 2) 64 =
      some (ownSignedMessage data).signature := by
    rw [h.sigHere]
    exact getDataSlice_own h.sigInside
  have hk : getDataSlice data instructionDatas (headerU16 data 8) (headerU16 data 6) 32 =
      some (ownSignedMessage data).publicKey := by
    rw [h.pubkeyHere]
    exact getDataSlice_own h.pubkeyInside
  have hm : getDataSlice data instructionDatas (headerU16 data 14) (headerU16 data 10)
      (headerU16 data 12) = some (ownSignedMessage data).message := by
    rw [h.msgHere]
    exact getDataSlice_own h.msgInside
  simp only [readSignature, Nat.reduceAdd, hs, hk, hm]
  rfl

/-- Of a self-contained instruction the precompile verifies one signature, the one the
program's parser reads. -/
theorem verifiedSignatures_own {valid : SignedMessage → Bool} {data : List UInt8}
    (h : SelfContained data) (instructionDatas : List (List UInt8)) :
    verifiedSignatures valid data instructionDatas =
      if valid (ownSignedMessage data) then some [ownSignedMessage data] else none := by
  have hlong := h.long
  have hread : (List.range 1).mapM (fun i => readSignature data instructionDatas (2 + 14 * i)) =
      some [ownSignedMessage data] := by
    show (List.mapM (fun i => readSignature data instructionDatas (2 + 14 * i)) [0]) = _
    simp [readSignature_own h]
  have hone : (1 : UInt8).toNat = 1 := rfl
  have hfit : ¬ (data.length < 2 ∨ ((1 : UInt8) = 0 ∧ 2 < data.length) ∨
      data.length < 2 + 14 * 1) := by
    have hne : ¬ (1 : UInt8) = 0 := by decide
    simp only [hne, false_and, false_or]
    omega
  simp only [verifiedSignatures, h.single, Option.bind_eq_bind, Option.bind_some, hone, if_neg hfit,
    hread, List.all_cons, List.all_nil, Bool.and_true]

end OnreApp.Utils
