import Mathlib.Algebra.Group.Nat.Defs
import Mathlib.Algebra.Ring.Int.Defs
import Mathlib.Tactic.Common

/-!
# Words read as signed

An unsigned 64-bit word read as a signed one keeps its value below half the range and loses the
whole range above. Negating it is exact below half the range only.
-/
namespace OnreApp.Library.Signed

theorem toInt_toInt64 (x : UInt64) :
    x.toInt64.toInt = if x.toNat < 2 ^ 63 then (x.toNat : ℤ) else x.toNat - 2 ^ 64 := by
  have hlt := x.toNat_lt
  have hread : x.toInt64.toInt = (x.toNat : ℤ).bmod (2 ^ 64) := by
    conv_lhs => rw [← UInt64.ofNat_toNat (x := x), UInt64.toInt64_ofNat', Int64.toInt_ofNat']
    rfl
  rw [hread, Int.bmod_def]
  push_cast
  split <;> split <;> omega

theorem toInt_toInt64_eq_iff {x : UInt64} : x.toInt64.toInt = x.toNat ↔ x.toNat < 2 ^ 63 := by
  rw [toInt_toInt64]
  split <;> omega

/-- The one word that is read as the least number, which has no negation. -/
theorem toInt64_eq_minValue_iff {x : UInt64} : x.toInt64 = Int64.minValue ↔ x.toNat = 2 ^ 63 := by
  have hlt := x.toNat_lt
  rw [← Int64.toInt_inj, toInt_toInt64, Int64.toInt_minValue]
  split <;> omega

theorem toInt_neg_toInt64 {x : UInt64} (h : x.toInt64 ≠ Int64.minValue) :
    (-x.toInt64).toInt = -x.toInt64.toInt := by
  have hlow := Int64.le_toInt x.toInt64
  have hhigh := Int64.toInt_lt x.toInt64
  have hne : x.toInt64.toInt ≠ -2 ^ 63 := fun he =>
    h (Int64.toInt_inj.mp (he.trans Int64.toInt_minValue.symm))
  rw [Int64.toInt_neg]
  apply Int.bmod_eq_of_le
  · omega
  · omega

theorem toInt_neg_toInt64_eq_iff {x : UInt64} (h : x.toInt64 ≠ Int64.minValue) :
    (-x.toInt64).toInt = -(x.toNat : ℤ) ↔ x.toNat < 2 ^ 63 := by
  rw [toInt_neg_toInt64 h, neg_inj, toInt_toInt64_eq_iff]

end OnreApp.Library.Signed
