import Mathlib.Tactic.Common

/-!
# Intervals of a fixed length

The naturals cut into intervals of `d`, and a quantity that grows by whole intervals only.
-/
namespace OnreApp.Library.Intervals

variable {d x y k : ℕ}

/-- The end of the interval that `x` lies in. -/
def intervalEnd (d x : ℕ) : ℕ := (x / d + 1) * d

theorem intervalEnd_le (d x : ℕ) : intervalEnd d x ≤ x + d := by
  unfold intervalEnd
  rw [Nat.add_mul, Nat.one_mul]
  exact Nat.add_le_add_right (Nat.div_mul_le_self x d) d

theorem intervalEnd_mono (d : ℕ) (h : x ≤ y) : intervalEnd d x ≤ intervalEnd d y :=
  Nat.mul_le_mul_right d (Nat.add_le_add_right (Nat.div_le_div_right h) 1)

/-- The number of the interval. -/
theorem div_eq_of_mem (h : k * d ≤ x) (h' : x < (k + 1) * d) : x / d = k :=
  Nat.div_eq_of_lt_le h h'

theorem lt_intervalEnd (hd : 0 < d) (x : ℕ) : x < intervalEnd d x :=
  (Nat.div_lt_iff_lt_mul hd).mp (Nat.lt_succ_self _)

/-- From `x` on, the interval of `x` lasts until its end. -/
theorem div_eq_iff_lt_intervalEnd (hd : 0 < d) (h : x ≤ y) :
    y / d = x / d ↔ y < intervalEnd d x := by
  constructor
  · intro he
    rw [intervalEnd, ← he]
    exact lt_intervalEnd hd y
  · intro hlt
    exact div_eq_of_mem (Nat.le_trans (Nat.div_mul_le_self x d) h) hlt

/-- A quantity that has grown by the share `y / d`, rounded down. -/
def grown (d b y : ℕ) : ℕ := b * (d + y) / d

theorem le_grown (hd : 0 < d) (b y : ℕ) : b ≤ grown d b y := by
  unfold grown
  rw [Nat.le_div_iff_mul_le hd]
  exact Nat.mul_le_mul_left b (Nat.le_add_right d y)

theorem grown_mono (d b : ℕ) (h : x ≤ y) : grown d b x ≤ grown d b y :=
  Nat.div_le_div_right (Nat.mul_le_mul_left b (Nat.add_le_add_left h d))

/-- If the product does not fit `m * n`, the growth does not fit `m`, as long as the divisor
fits `n`. -/
theorem le_grown_of_overflow {b m n : ℕ} (hd : 0 < d) (hn : d ≤ n) (h : m * n ≤ b * (d + y)) :
    m ≤ grown d b y := by
  unfold grown
  rw [Nat.le_div_iff_mul_le hd]
  exact Nat.le_trans (Nat.mul_le_mul_left m hn) h

end OnreApp.Library.Intervals
