import Mathlib.Algebra.Group.Pi.Basic
import Mathlib.Tactic.Abel

/-!
# Balances that flow

What a quantity loses and gains between two states, for quantities that can be added and
cancelled, such as the balances of many accounts at once. Losses and gains compose, what
passes through cancels, and equal flows from one state end in one state.
-/
namespace OnreApp.Library.Balance

variable {M : Type*} [AddCancelCommMonoid M]

/-- `b` becomes `b'` by losing `out` and gaining `inc`. -/
def Flow (out inc b b' : M) : Prop := b' + out = b + inc

namespace Flow

variable {out inc out' inc' t b b₁ b₂ b' : M}

theorem refl (b : M) : Flow 0 0 b b := rfl

theorem trans (h : Flow out inc b b₁) (h' : Flow out' inc' b₁ b₂) :
    Flow (out + out') (inc + inc') b b₂ := by
  unfold Flow at *
  calc b₂ + (out + out') = (b₂ + out') + out := by abel
    _ = (b₁ + out) + inc' := by rw [h']; abel
    _ = b + (inc + inc') := by rw [h]; abel

/-- What is lost and gained again does not count. -/
theorem cancel (h : Flow (t + out) (t + inc) b b') : Flow out inc b b' := by
  unfold Flow at *
  refine add_left_cancel (a := t) ?_
  calc t + (b' + out) = b' + (t + out) := by abel
    _ = b + (t + inc) := h
    _ = t + (b + inc) := by abel

theorem congr (h : Flow out inc b b') (ho : out = out') (hi : inc = inc') :
    Flow out' inc' b b' := by
  rw [← ho, ← hi]
  exact h

theorem unique (h : Flow out inc b b₁) (h' : Flow out inc b b₂) : b₁ = b₂ :=
  add_right_cancel (Eq.trans h (Eq.symm h'))

section Places

variable {K : Type*} {b b' out inc : K → M} {x y : K} {m n : M}

theorem apply (h : Flow out inc b b') (k : K) : b' k + out k = b k + inc k := congrFun h k

variable [DecidableEq K]

/-- A single place that neither loses nor gains keeps what it has. -/
theorem apply_of_ne {k : K} (h : Flow (Pi.single x m) (Pi.single y n) b b') (hx : k ≠ x)
    (hy : k ≠ y) : b' k = b k := by
  have hk := h.apply k
  rw [Pi.single_eq_of_ne hx, Pi.single_eq_of_ne hy, add_zero, add_zero] at hk
  exact hk

/-- The single place that gains. -/
theorem apply_gained (h : Flow (Pi.single x m) (Pi.single y n) b b') (hne : y ≠ x) :
    b' y = b y + n := by
  have hy := h.apply y
  rw [Pi.single_eq_same, Pi.single_eq_of_ne hne, add_zero] at hy
  exact hy

/-- The single place that loses. -/
theorem apply_lost (h : Flow (Pi.single x m) (Pi.single y n) b b') (hne : x ≠ y) :
    b' x + m = b x := by
  have hx := h.apply x
  rw [Pi.single_eq_same, Pi.single_eq_of_ne hne, add_zero] at hx
  exact hx

end Places

end Flow

end OnreApp.Library.Balance
