import OnreApp.Library.LittleEndian
import OnreApp.Library.Outcome

/-!
# The Ed25519 instruction parser

The data of an instruction of the Ed25519 precompile: a count, a padding byte, and for
each signature seven 16-bit numbers that say where the signature, the key and the message
are and which instruction of the transaction holds them.
-/
namespace OnreApp.Utils

open Library.LittleEndian Library.Outcome

/-- How the parser ends without a result: it returns `None`, or it indexes out of bounds. -/
inductive ParseFailure
  | none
  | outOfBounds
  deriving DecidableEq

structure ParsedEd25519 where
  sigCount : UInt8
  pubkey : List UInt8
  message : List UInt8
  deriving DecidableEq

/-- The bytes `offset .. offset + size`. -/
def slice (data : List UInt8) (offset size : ℕ) : List UInt8 := (data.drop offset).take size

/-- `&data[offset..offset + size]`. -/
def byteRange (data : List UInt8) (offset size : ℕ) : Except ParseFailure (List UInt8) := do
  require (offset + size ≤ data.length) .outOfBounds
  pure (slice data offset size)

/-- `u16::from_le_bytes([data[i], data[i + 1]])`. -/
def u16At (data : List UInt8) (i : ℕ) : Except ParseFailure ℕ := do
  let bytes ← byteRange data i 2
  pure (ofLe bytes)

/-- The index that means the instruction itself. -/
def u16Max : ℕ := 0xffff

def parseEd25519Ix (data : List UInt8) : Except ParseFailure ParsedEd25519 := do
  require (16 ≤ data.length) .none
  let sigCount ← okOr data[0]? .outOfBounds
  require (sigCount = 1) .none
  let sigIxIndex ← u16At data 4
  let pubkeyIxIndex ← u16At data 8
  let msgIxIndex ← u16At data 14
  require (¬ (sigIxIndex ≠ u16Max ∨ pubkeyIxIndex ≠ u16Max ∨ msgIxIndex ≠ u16Max)) .none
  let sigOffset ← u16At data 2
  let pubkeyOffset ← u16At data 6
  let msgOffset ← u16At data 10
  let msgSize ← u16At data 12
  require (¬ data.length < sigOffset + 64) .none
  let _signature ← byteRange data sigOffset 64
  require (¬ data.length < pubkeyOffset + 32) .none
  let pubkey ← byteRange data pubkeyOffset 32
  require (¬ data.length < msgOffset + msgSize) .none
  let message ← byteRange data msgOffset msgSize
  pure { sigCount, pubkey, message }

/-! ## What the header says -/

/-- The number at bytes `i` and `i + 1`. -/
def headerU16 (data : List UInt8) (i : ℕ) : ℕ := ofLe (slice data i 2)

/-- The header of a single signature whose parts all lie in the instruction itself. -/
structure SelfContained (data : List UInt8) : Prop where
  long : 16 ≤ data.length
  single : data[0]? = some 1
  sigHere : headerU16 data 4 = u16Max
  pubkeyHere : headerU16 data 8 = u16Max
  msgHere : headerU16 data 14 = u16Max
  sigInside : headerU16 data 2 + 64 ≤ data.length
  pubkeyInside : headerU16 data 6 + 32 ≤ data.length
  msgInside : headerU16 data 10 + headerU16 data 12 ≤ data.length

@[simp] theorem byteRange_eq_ok {data bs : List UInt8} {offset size : ℕ} :
    byteRange data offset size = .ok bs ↔
      offset + size ≤ data.length ∧ bs = slice data offset size := by
  simp only [byteRange, bind_eq_ok, require_eq_ok, pure_eq_ok]
  constructor
  · rintro ⟨_, h, rfl⟩
    exact ⟨h, rfl⟩
  · rintro ⟨h, rfl⟩
    exact ⟨⟨⟩, h, rfl⟩

@[simp] theorem u16At_eq_ok {data : List UInt8} {i n : ℕ} :
    u16At data i = .ok n ↔ i + 2 ≤ data.length ∧ n = headerU16 data i := by
  simp only [u16At, bind_eq_ok, byteRange_eq_ok, pure_eq_ok]
  constructor
  · rintro ⟨_, ⟨h, rfl⟩, rfl⟩
    exact ⟨h, rfl⟩
  · rintro ⟨h, rfl⟩
    exact ⟨_, ⟨h, rfl⟩, rfl⟩

/-- The parser returns the ranges a self-contained header names, and nothing otherwise. -/
theorem parseEd25519Ix_eq_ok {data : List UInt8} {p : ParsedEd25519} :
    parseEd25519Ix data = .ok p ↔ SelfContained data ∧
      p = ⟨1, slice data (headerU16 data 6) 32,
        slice data (headerU16 data 10) (headerU16 data 12)⟩ := by
  simp only [parseEd25519Ix, bind_eq_ok, require_eq_ok, okOr_eq_ok, u16At_eq_ok, byteRange_eq_ok,
    pure_eq_ok, not_or, not_not, Nat.not_lt]
  constructor
  · rintro ⟨_, hlong, _, hc, _, rfl, _, ⟨_, rfl⟩, _, ⟨_, rfl⟩, _, ⟨_, rfl⟩, _, ⟨hs, hp, hm⟩,
      _, ⟨_, rfl⟩, _, ⟨_, rfl⟩, _, ⟨_, rfl⟩, _, ⟨_, rfl⟩, _, hsi, _, ⟨_, rfl⟩, _, hpi, _,
      ⟨_, rfl⟩, _, hmi, _, ⟨_, rfl⟩, rfl⟩
    exact ⟨⟨hlong, hc, hs, hp, hm, hsi, hpi, hmi⟩, rfl⟩
  · rintro ⟨⟨hlong, hc, hs, hp, hm, hsi, hpi, hmi⟩, rfl⟩
    have hin : ∀ i, i ≤ 14 → i + 2 ≤ data.length := fun i hi => by omega
    exact ⟨⟨⟩, hlong, 1, hc, ⟨⟩, rfl, _, ⟨hin 4 (by decide), rfl⟩, _, ⟨hin 8 (by decide), rfl⟩,
      _, ⟨hin 14 (by decide), rfl⟩, ⟨⟩, ⟨hs, hp, hm⟩, _, ⟨hin 2 (by decide), rfl⟩,
      _, ⟨hin 6 (by decide), rfl⟩, _, ⟨hin 10 (by decide), rfl⟩, _, ⟨hin 12 (by decide), rfl⟩,
      ⟨⟩, hsi, _, ⟨hsi, rfl⟩, ⟨⟩, hpi, _, ⟨hpi, rfl⟩, ⟨⟩, hmi, _, ⟨hmi, rfl⟩, rfl⟩

/-! ## Every index is checked first -/

theorem byteRange_avoids {data : List UInt8} {offset size : ℕ} (h : offset + size ≤ data.length) :
    Avoids .outOfBounds (byteRange data offset size) := by
  have hok : byteRange data offset size = .ok (slice data offset size) :=
    byteRange_eq_ok.mpr ⟨h, rfl⟩
  rw [hok]
  exact avoids_ok _ _

theorem u16At_avoids {data : List UInt8} {i : ℕ} (h : i + 2 ≤ data.length) :
    Avoids .outOfBounds (u16At data i) :=
  avoids_bind (byteRange_avoids h) fun _ _ => avoids_pure _ _

theorem checkedRange_avoids {data : List UInt8} {offset size : ℕ} {u : PUnit}
    (h : require (¬ data.length < offset + size) ParseFailure.none = .ok u) :
    Avoids .outOfBounds (byteRange data offset size) :=
  byteRange_avoids (Nat.not_lt.mp ((require_eq_ok _ _ _).mp h))

/-- No bytes make the parser index out of bounds. -/
theorem parseEd25519Ix_avoids (data : List UInt8) :
    Avoids .outOfBounds (parseEd25519Ix data) := by
  have hnone : ParseFailure.none ≠ .outOfBounds := by decide
  refine avoids_bind (avoids_require _ hnone) fun _ hlong => ?_
  rw [require_eq_ok] at hlong
  have hin : ∀ i, i ≤ 14 → i + 2 ≤ data.length := fun i hi => by omega
  refine avoids_bind (avoids_okOr_of_some (List.getElem?_eq_getElem (by omega)) _ _) fun _ _ => ?_
  refine avoids_bind (avoids_require _ hnone) fun _ _ => ?_
  refine avoids_bind (u16At_avoids (hin 4 (by decide))) fun _ _ => ?_
  refine avoids_bind (u16At_avoids (hin 8 (by decide))) fun _ _ => ?_
  refine avoids_bind (u16At_avoids (hin 14 (by decide))) fun _ _ => ?_
  refine avoids_bind (avoids_require _ hnone) fun _ _ => ?_
  refine avoids_bind (u16At_avoids (hin 2 (by decide))) fun _ _ => ?_
  refine avoids_bind (u16At_avoids (hin 6 (by decide))) fun _ _ => ?_
  refine avoids_bind (u16At_avoids (hin 10 (by decide))) fun _ _ => ?_
  refine avoids_bind (u16At_avoids (hin 12 (by decide))) fun _ _ => ?_
  -- Each range is read after the check that it lies inside.
  refine avoids_bind (avoids_require _ hnone) fun _ hsig => ?_
  refine avoids_bind (checkedRange_avoids hsig) fun _ _ => ?_
  refine avoids_bind (avoids_require _ hnone) fun _ hkey => ?_
  refine avoids_bind (checkedRange_avoids hkey) fun _ _ => ?_
  refine avoids_bind (avoids_require _ hnone) fun _ hmsg => ?_
  exact avoids_bind (checkedRange_avoids hmsg) fun _ _ => avoids_pure _ _

end OnreApp.Utils
