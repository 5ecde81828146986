import Mathlib.Tactic.Common
import Mathlib.Algebra.Order.Floor.Div

/-!
# Rounded division

Ceilings and floors of scaled amounts over the naturals. A ceiling of a scaled amount
is subadditive and a floor superadditive, so cutting an amount into parts never lowers
the first nor raises the second; what is left of an amount after a proportional ceiling
is a floor.
-/
namespace OnreApp.Library.Rounding

theorem le_ceilDiv_mul (n : ℕ) {d : ℕ} (hd : 0 < d) : n ≤ n ⌈/⌉ d * d := by
  rw [Nat.mul_comm]
  exact (ceilDiv_le_iff_le_mul hd).mp le_rfl

theorem ceilDiv_le {n d k : ℕ} (hd : 0 < d) (h : n ≤ k * d) : n ⌈/⌉ d ≤ k :=
  (ceilDiv_le_iff_le_mul hd).mpr (by rwa [Nat.mul_comm])

theorem ceilDiv_eq_zero_iff {n d : ℕ} (hd : 0 < d) : n ⌈/⌉ d = 0 ↔ n = 0 := by
  rw [← Nat.le_zero, ceilDiv_le_iff_le_mul hd, Nat.mul_zero, Nat.le_zero]

theorem ceilDiv_add_le (m n : ℕ) {d : ℕ} (hd : 0 < d) :
    (m + n) ⌈/⌉ d ≤ m ⌈/⌉ d + n ⌈/⌉ d := by
  apply ceilDiv_le hd
  rw [Nat.add_mul]
  exact Nat.add_le_add (le_ceilDiv_mul m hd) (le_ceilDiv_mul n hd)

/-- A share of at most the whole, rounded up, is at most the whole. -/
theorem ceilDiv_share_le {a f d : ℕ} (hd : 0 < d) (hf : f ≤ d) : (a * f) ⌈/⌉ d ≤ a :=
  ceilDiv_le hd (Nat.mul_le_mul_left a hf)

/-- Taking a rounded-up share leaves the rest rounded down. -/
theorem sub_ceilDiv_share {a f d : ℕ} (hd : 0 < d) (hf : f ≤ d) :
    a - (a * f) ⌈/⌉ d = a * (d - f) / d := by
  have hle := ceilDiv_share_le (a := a) hd hf
  have hsum : a * f + a * (d - f) = a * d := by rw [← Nat.mul_add, Nat.add_sub_cancel' hf]
  have hup := le_ceilDiv_mul (a * f) hd
  have hlow : ∀ k, a * f ≤ k * d → (a * f) ⌈/⌉ d ≤ k := fun _ => ceilDiv_le hd
  generalize (a * f) ⌈/⌉ d = c at *
  have hc : a * (d - f) = (a - c) * d + (c * d - a * f) := by
    have : (a - c) * d + c * d = a * d := by rw [← Nat.add_mul, Nat.sub_add_cancel hle]
    omega
  have hlt : c * d - a * f < d := by
    rcases Nat.eq_zero_or_pos c with rfl | hpos
    · omega
    · have hn : ¬ a * f ≤ (c - 1) * d := fun h => by have := hlow _ h; omega
      have : (c - 1) * d + d = c * d := by
        rw [← Nat.succ_mul, Nat.succ_eq_add_one, Nat.sub_add_cancel hpos]
      omega
  rw [hc, Nat.add_comm, Nat.add_mul_div_right _ _ hd, Nat.div_eq_of_lt hlt, Nat.zero_add]

/-- The ceiling is the floor, or one more. -/
theorem ceilDiv_eq_div_add {n d : ℕ} (hd : 0 < d) :
    n ⌈/⌉ d = n / d + if d ∣ n then 0 else 1 := by
  rw [Nat.ceilDiv_eq_add_pred_div]
  have hn := Nat.div_add_mod' n d
  have hlt := Nat.mod_lt n hd
  split
  · next hdvd =>
    have hmod := Nat.mod_eq_zero_of_dvd hdvd
    apply Nat.div_eq_of_lt_le
    · rw [Nat.add_zero]
      omega
    · rw [Nat.add_mul, Nat.one_mul, Nat.add_zero]
      omega
  · next hdvd =>
    have hmod := Nat.pos_of_ne_zero fun h => hdvd (Nat.dvd_of_mod_eq_zero h)
    apply Nat.div_eq_of_lt_le
    · rw [Nat.add_mul, Nat.one_mul]
      omega
    · rw [Nat.add_mul, Nat.add_mul, Nat.one_mul]
      omega

/-- What taking a rounded-down share leaves is at most one more than what taking a rounded-up
one leaves. -/
theorem sub_div_share {a f d : ℕ} (hd : 0 < d) (hf : f ≤ d) :
    a - a * f / d = a * (d - f) / d + if d ∣ a * f then 0 else 1 := by
  have hle := ceilDiv_share_le (a := a) hd hf
  rw [← sub_ceilDiv_share hd hf]
  rw [ceilDiv_eq_div_add hd] at hle ⊢
  split_ifs at hle ⊢ <;> omega

/-- One unit more buys nothing more exactly if it fits beside the remainder. -/
theorem succ_mul_div_eq_iff {n k d : ℕ} (hd : 0 < d) :
    (n + 1) * k / d = n * k / d ↔ n * k % d + k < d := by
  have hn := Nat.div_add_mod' (n * k) d
  rw [Nat.add_mul, Nat.one_mul]
  constructor
  · intro h
    have hlt := Nat.lt_div_mul_add (a := n * k + k) hd
    rw [h] at hlt
    omega
  · intro h
    apply Nat.div_eq_of_lt_le
    · omega
    · rw [Nat.add_mul, Nat.one_mul]
      omega

theorem div_add_div_le (m n d : ℕ) : m / d + n / d ≤ (m + n) / d := by
  rcases Nat.eq_zero_or_pos d with rfl | hd
  · simp
  · rw [Nat.le_div_iff_mul_le hd, Nat.add_mul]
    exact Nat.add_le_add (Nat.div_mul_le_self m d) (Nat.div_mul_le_self n d)

/-- A superadditive function of amounts: the parts of a sum never exceed the whole. -/
def Superadditive (f : ℕ → ℕ) : Prop := ∀ m n, f m + f n ≤ f (m + n)

theorem superadditive_div_mul (k d : ℕ) : Superadditive fun n => n * k / d := by
  intro m n
  change m * k / d + n * k / d ≤ (m + n) * k / d
  rw [Nat.add_mul]
  exact div_add_div_le _ _ _

theorem Superadditive.comp {f g : ℕ → ℕ} (hf : Superadditive f) (hg : Superadditive g) :
    Superadditive (f ∘ g) := by
  intro m n
  have hmono : ∀ {x y}, x ≤ y → f x ≤ f y := by
    intro x y h
    obtain ⟨z, rfl⟩ := Nat.exists_eq_add_of_le h
    have := hf x z
    omega
  exact (hf _ _).trans (hmono (hg m n))

theorem Superadditive.monotone {f : ℕ → ℕ} (hf : Superadditive f) : Monotone f := by
  intro x y h
  obtain ⟨z, rfl⟩ := Nat.exists_eq_add_of_le h
  have := hf x z
  omega

theorem Superadditive.sum_le {f : ℕ → ℕ} (hf : Superadditive f) (l : List ℕ) :
    (l.map f).sum ≤ f l.sum := by
  induction l with
  | nil => simp
  | cons a l ih =>
    rw [List.map_cons, List.sum_cons, List.sum_cons]
    exact (Nat.add_le_add_left ih _).trans (hf a l.sum)

/-- Rounding up every part costs at least rounding up the whole. -/
theorem ceilDiv_sum_le (k : ℕ) {d : ℕ} (hd : 0 < d) (l : List ℕ) :
    (l.sum * k) ⌈/⌉ d ≤ (l.map fun n => (n * k) ⌈/⌉ d).sum := by
  induction l with
  | nil => simp
  | cons a l ih =>
    rw [List.map_cons, List.sum_cons, List.sum_cons, Nat.add_mul]
    exact (ceilDiv_add_le _ _ hd).trans (Nat.add_le_add_left ih _)

/-- Scaling down by `d / n` and back up by at most `n / d`, flooring both times, never
gains. -/
theorem div_mul_div_le (a n d : ℕ) : a * n / d * d / n ≤ a := by
  rcases Nat.eq_zero_or_pos n with rfl | hn
  · simp
  · apply Nat.div_le_of_le_mul
    rw [Nat.mul_comm n a]
    exact Nat.div_mul_le_self _ _

/-- Converting at the rate `a / b` and at most the result at the rate `c / d`, flooring both times,
gives at most the product of the rates. -/
theorem convert_twice_le {n m a b c d : ℕ} (hm : m ≤ n * a / b) :
    m * c / d * (b * d) ≤ n * (a * c) := by
  have hfirst : m * b ≤ n * a := (Nat.mul_le_mul_right b hm).trans (Nat.div_mul_le_self _ _)
  calc m * c / d * (b * d) = m * c / d * d * b := by rw [Nat.mul_comm b d, Nat.mul_assoc]
    _ ≤ m * c * b := Nat.mul_le_mul_right b (Nat.div_mul_le_self _ _)
    _ = m * b * c := Nat.mul_right_comm m c b
    _ ≤ n * a * c := Nat.mul_le_mul_right c hfirst
    _ = n * (a * c) := Nat.mul_assoc n a c

end OnreApp.Library.Rounding
