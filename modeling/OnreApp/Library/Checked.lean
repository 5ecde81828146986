import Mathlib.Tactic.NormNum

/-!
# Checked machine arithmetic

Unsigned integers of `w` bits as naturals below `2 ^ w`. A checked operation returns
nothing where the exact result leaves the range.
-/
namespace OnreApp.Library.Checked

def checkedAdd (w a b : ℕ) : Option ℕ := if a + b < 2 ^ w then some (a + b) else none

def checkedSub (a b : ℕ) : Option ℕ := if b ≤ a then some (a - b) else none

def checkedMul (w a b : ℕ) : Option ℕ := if a * b < 2 ^ w then some (a * b) else none

@[simp] theorem checkedAdd_eq_some {w a b c : ℕ} :
    checkedAdd w a b = some c ↔ a + b < 2 ^ w ∧ c = a + b := by
  unfold checkedAdd
  split
  · simp only [Option.some.injEq, eq_comm, true_and, *]
  · simp only [reduceCtorEq, false_iff]; omega

@[simp] theorem checkedSub_eq_some {a b c : ℕ} :
    checkedSub a b = some c ↔ b ≤ a ∧ c = a - b := by
  unfold checkedSub
  split
  · simp only [Option.some.injEq, eq_comm, true_and, *]
  · simp only [reduceCtorEq, false_iff]; omega

@[simp] theorem checkedMul_eq_some {w a b c : ℕ} :
    checkedMul w a b = some c ↔ a * b < 2 ^ w ∧ c = a * b := by
  unfold checkedMul
  split
  · simp only [Option.some.injEq, eq_comm, true_and, *]
  · simp only [reduceCtorEq, false_iff]; omega

@[simp] theorem checkedAdd_eq_none (w a b : ℕ) : checkedAdd w a b = none ↔ 2 ^ w ≤ a + b := by
  unfold checkedAdd
  split <;> simp_all

@[simp] theorem checkedSub_eq_none (a b : ℕ) : checkedSub a b = none ↔ a < b := by
  unfold checkedSub
  split <;> simp_all

@[simp] theorem checkedMul_eq_none (w a b : ℕ) : checkedMul w a b = none ↔ 2 ^ w ≤ a * b := by
  unfold checkedMul
  split <;> simp_all

/-- Narrowing to 64 bits is exact on what fits. -/
theorem toNat_ofNat_of_lt {n : ℕ} (h : n < 2 ^ 64) : (UInt64.ofNat n).toNat = n := by
  rw [UInt64.toNat_ofNat', Nat.mod_eq_of_lt h]

theorem ofNat_eq_of_toNat {n : ℕ} {x : UInt64} (h : x.toNat = n) : UInt64.ofNat n = x := by
  rw [← h, UInt64.ofNat_toNat]

end OnreApp.Library.Checked
