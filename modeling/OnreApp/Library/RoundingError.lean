import Mathlib.Algebra.Order.Field.Basic
import Mathlib.Algebra.Order.Ring.Pow
import Mathlib.Tactic.FieldSimp
import Mathlib.Tactic.GCongr
import Mathlib.Tactic.Linarith
import Mathlib.Tactic.NormNum
import Mathlib.Tactic.Positivity
import Mathlib.Tactic.Ring

/-!
# Errors of rounding

A product of rounded factors, rounded again, is off by all their relative errors and one
more. Counting these errors bounds a whole computation of products, and Bernoulli's inequality
makes the bound linear in their number. In fixed point, rounding a number of at least one is
such an error of at most half a unit of the scale.
-/
namespace OnreApp.Library.RoundingError

/-! ## Relative errors -/

universe u
variable {K : Type u} [Field K] [LinearOrder K] [IsStrictOrderedRing K]

/-- `x` is `y` after `k` relative errors of at most `ε`. -/
structure Within (ε : K) (k : ℕ) (x y : K) : Prop where
  lower : y * (1 - ε) ^ k ≤ x
  upper : x ≤ y * (1 + ε) ^ k

omit [IsStrictOrderedRing K] in
theorem Within.refl (ε x : K) : Within ε 0 x x := by
  constructor <;> rw [pow_zero, mul_one]

theorem Within.of_abs_sub_le {ε x y : K} (h : |x - y| ≤ ε * y) : Within ε 1 x y := by
  obtain ⟨hlow, hup⟩ := abs_le.mp h
  constructor
  · rw [pow_one]
    linarith
  · rw [pow_one]
    linarith

/-- The errors of two factors add up in their product. -/
theorem Within.mul {ε x y x' y' : K} {k m : ℕ} (hε : 0 ≤ ε) (hε1 : ε ≤ 1) (hy : 0 ≤ y)
    (hy' : 0 ≤ y') (h : Within ε k x y) (h' : Within ε m x' y') :
    Within ε (k + m) (x * x') (y * y') := by
  have hone : 0 ≤ 1 - ε := sub_nonneg.mpr hε1
  have hlow : 0 ≤ y * (1 - ε) ^ k := by positivity
  have hlow' : 0 ≤ y' * (1 - ε) ^ m := by positivity
  have hx' : 0 ≤ x' := hlow'.trans h'.lower
  constructor
  · calc y * y' * (1 - ε) ^ (k + m) = y * (1 - ε) ^ k * (y' * (1 - ε) ^ m) := by ring
      _ ≤ x * x' := mul_le_mul h.lower h'.lower hlow' (hlow.trans h.lower)
  · calc x * x' ≤ y * (1 + ε) ^ k * (y' * (1 + ε) ^ m) :=
          mul_le_mul h.upper h'.upper hx' (by positivity)
      _ = y * y' * (1 + ε) ^ (k + m) := by ring

/-- Errors made one after the other add up. -/
theorem Within.trans {ε x y z : K} {k m : ℕ} (hε : 0 ≤ ε) (hε1 : ε ≤ 1)
    (h : Within ε k x y) (h' : Within ε m y z) : Within ε (k + m) x z := by
  have hone : 0 ≤ 1 - ε := sub_nonneg.mpr hε1
  constructor
  · calc z * (1 - ε) ^ (k + m) = z * (1 - ε) ^ m * (1 - ε) ^ k := by ring
      _ ≤ y * (1 - ε) ^ k := mul_le_mul_of_nonneg_right h'.lower (by positivity)
      _ ≤ x := h.lower
  · calc x ≤ y * (1 + ε) ^ k := h.upper
      _ ≤ z * (1 + ε) ^ m * (1 + ε) ^ k := mul_le_mul_of_nonneg_right h'.upper (by positivity)
      _ = z * (1 + ε) ^ (k + m) := by ring

theorem one_sub_mul_le_pow {ε : K} (hε1 : ε ≤ 1) (k : ℕ) : 1 - k * ε ≤ (1 - ε) ^ k := by
  have hbernoulli := one_add_mul_le_pow (a := -ε) (by linarith) k
  rw [← sub_eq_add_neg] at hbernoulli
  linarith

theorem one_sub_pow_mul_one_add_pow_le {ε : K} (hε : 0 ≤ ε) (hε1 : ε ≤ 1) (k : ℕ) :
    (1 - ε) ^ k * (1 + ε) ^ k ≤ 1 := by
  rw [← mul_pow]
  apply pow_le_one₀
  · exact mul_nonneg (sub_nonneg.mpr hε1) (by linarith)
  · have hsq : 0 ≤ ε * ε := mul_self_nonneg ε
    linarith [show (1 - ε) * (1 + ε) = 1 - ε * ε by ring]

/-- While the errors stay below a half together, they cost at most twice their number. -/
theorem Within.abs_sub_le {ε x y : K} {k : ℕ} (hε : 0 ≤ ε) (hε1 : ε ≤ 1) (hy : 0 ≤ y)
    (hsmall : 2 * (k * ε) ≤ 1) (h : Within ε k x y) : |x - y| ≤ 2 * (k * ε) * x := by
  have hone : 0 ≤ 1 - ε := sub_nonneg.mpr hε1
  have hk : 0 ≤ k * ε := by positivity
  have hx : 0 ≤ x := le_trans (by positivity) h.lower
  have hbernoulli := one_sub_mul_le_pow hε1 k
  have hdown : y * (1 - k * ε) ≤ x := le_trans (mul_le_mul_of_nonneg_left hbernoulli hy) h.lower
  have hup : x * (1 - k * ε) ≤ y := by
    calc x * (1 - k * ε) ≤ x * (1 - ε) ^ k := mul_le_mul_of_nonneg_left hbernoulli hx
      _ ≤ y * (1 + ε) ^ k * (1 - ε) ^ k := mul_le_mul_of_nonneg_right h.upper (by positivity)
      _ = y * ((1 - ε) ^ k * (1 + ε) ^ k) := by ring
      _ ≤ y := mul_le_of_le_one_right hy (one_sub_pow_mul_one_add_pow_le hε hε1 k)
  have htwice : y ≤ 2 * x := by
    have hhalf : y * (k * ε) * 2 ≤ y := by
      calc y * (k * ε) * 2 = y * (2 * (k * ε)) := by ring
        _ ≤ y := mul_le_of_le_one_right hy hsmall
    linarith
  have hcost : k * ε * y ≤ k * ε * (2 * x) := mul_le_mul_of_nonneg_left htwice hk
  have hpos : 0 ≤ k * ε * x := mul_nonneg hk hx
  rw [abs_le]
  constructor
  · linarith
  · linarith

/-! ## Rounding half up -/

/-- A quotient rounded half up is off by at most a half. -/
theorem abs_halfUp_sub_le (n : ℕ) {d : ℕ} (hd : 0 < d) :
    |(((n + d / 2) / d : ℕ) : K) - n / d| ≤ 1 / 2 := by
  have hdiv := Nat.div_add_mod' (n + d / 2) d
  have hmod := Nat.mod_lt (n + d / 2) hd
  generalize (n + d / 2) / d = r at *
  have hlow : 2 * (r * d) ≤ 2 * n + d := by omega
  have hup : 2 * n ≤ 2 * (r * d) + d := by omega
  have hlow' : 2 * ((r : K) * d) ≤ 2 * n + d := by exact_mod_cast hlow
  have hup' : 2 * (n : K) ≤ 2 * (r * d) + d := by exact_mod_cast hup
  have hpos : (0 : K) < d := Nat.cast_pos.mpr hd
  have hquot : (n : K) / d * d = n := div_mul_cancel₀ _ hpos.ne'
  rw [abs_le]
  constructor
  · refine le_of_mul_le_mul_right ?_ hpos
    linarith
  · refine le_of_mul_le_mul_right ?_ hpos
    linarith

/-! ## Fixed point -/

/-- The relative error of rounding a number of at least one to the scale. -/
def unitError (K : Type u) [Field K] (scale : ℕ) : K := 1 / (2 * scale)

theorem unitError_nonneg (K : Type u) [Field K] [LinearOrder K] [IsStrictOrderedRing K]
    (scale : ℕ) : 0 ≤ unitError K scale := by
  unfold unitError
  positivity

theorem unitError_le_one (K : Type u) [Field K] [LinearOrder K] [IsStrictOrderedRing K]
    (scale : ℕ) : unitError K scale ≤ 1 := by
  unfold unitError
  rcases Nat.eq_zero_or_pos scale with rfl | hpos
  · norm_num
  · have hone : (1 : K) ≤ scale := Nat.one_le_cast.mpr hpos
    rw [div_le_one (by linarith)]
    linarith

/-- A number of the scale within a half of `x`, where `x` is at least one. -/
theorem within_of_abs_sub_scale_le {scale r : ℕ} {x : K} (hpos : 0 < scale) (hx : 1 ≤ x)
    (h : |(r : K) - scale * x| ≤ 1 / 2) : Within (unitError K scale) 1 (r / scale) x := by
  have hscale : (0 : K) < scale := Nat.cast_pos.mpr hpos
  apply Within.of_abs_sub_le
  have hquot : (r : K) / scale - x = (r - scale * x) / scale := by
    field_simp
  rw [hquot, abs_div, abs_of_pos hscale, div_le_iff₀ hscale]
  calc |(r : K) - scale * x| ≤ 1 / 2 := h
    _ ≤ 1 / 2 * x := by linarith
    _ = unitError K scale * x * scale := by
      unfold unitError
      field_simp

/-- The product of two numbers of at least one, rounded half up to the scale. -/
theorem halfUp_product_within {a b scale i j : ℕ} {x y : K} (hpos : 0 < scale) (ha : scale ≤ a)
    (hb : scale ≤ b) (hx : 0 ≤ x) (hy : 0 ≤ y) (hax : Within (unitError K scale) i (a / scale) x)
    (hby : Within (unitError K scale) j (b / scale) y) :
    Within (unitError K scale) (i + j + 1) (((a * b + scale / 2) / scale : ℕ) / scale)
      (x * y) := by
  have hscale : (0 : K) < scale := Nat.cast_pos.mpr hpos
  have hprod : (1 : K) ≤ a / scale * (b / scale) := by
    have ha' : (1 : K) ≤ a / scale := (one_le_div hscale).mpr (Nat.cast_le.mpr ha)
    have hb' : (1 : K) ≤ b / scale := (one_le_div hscale).mpr (Nat.cast_le.mpr hb)
    exact one_le_mul_of_one_le_of_one_le ha' hb'
  have hround := abs_halfUp_sub_le (K := K) (a * b) hpos
  have heq : ((a * b : ℕ) : K) / scale = scale * (a / scale * (b / scale)) := by
    push_cast
    field_simp
  rw [heq] at hround
  rw [Nat.add_comm (i + j) 1]
  exact (within_of_abs_sub_scale_le hpos hprod hround).trans (unitError_nonneg K _)
    (unitError_le_one K _) (hax.mul (unitError_nonneg K _) (unitError_le_one K _) hx hy hby)

end OnreApp.Library.RoundingError
