import OnreApp.Library.RoundingError
import OnreApp.Program.Apy
import Mathlib.Algebra.Order.Field.Rat

/-!
# How accurate the yield is

The loop multiplies at most fourteen times, and squaring doubles the errors made so far. Every
factor is at least one, so each rounding is a relative error of at most half a unit of the
scale, and a power carries one for each of its factors and one for each product of them.
-/
namespace OnreApp.Program

open Library.Checked Library.Outcome Library.RoundingError

/-! ## The exact power -/

theorem mulDivRound_within {a b scale r i j : ℕ} {x y : ℚ} (ha : scale ≤ a) (hb : scale ≤ b)
    (hx : 0 ≤ x) (hy : 0 ≤ y) (hax : Within (unitError ℚ scale) i (a / scale) x)
    (hby : Within (unitError ℚ scale) j (b / scale) y) (h : mulDivRound a b scale = .ok r) :
    Within (unitError ℚ scale) (i + j + 1) (r / scale) (x * y) := by
  obtain ⟨_, hne, rfl⟩ := mulDivRound_eq_ok.mp h
  exact halfUp_product_within (Nat.pos_of_ne_zero hne) ha hb hx hy hax hby

theorem mulDivRoundIf_within {due : Prop} [Decidable due] {a b scale r i j : ℕ} {x y : ℚ}
    (ha : scale ≤ a) (hb : scale ≤ b) (hx : 0 ≤ x) (hy : 0 ≤ y)
    (hax : Within (unitError ℚ scale) i (a / scale) x)
    (hby : Within (unitError ℚ scale) j (b / scale) y) (h : mulDivRoundIf due a b scale = .ok r) :
    Within (unitError ℚ scale) (if due then i + j + 1 else i) (r / scale)
      (if due then x * y else x) := by
  unfold mulDivRoundIf at h
  split at h
  · next hdue =>
    rw [if_pos hdue, if_pos hdue]
    exact mulDivRound_within ha hb hx hy hax hby h
  · next hdue =>
    rw [if_neg hdue, if_neg hdue]
    exact (pure_eq_ok _ _).mp h ▸ hax

/-- One turn of the loop leaves the power it computes as it was. -/
theorem turn_power (x y : ℚ) (exp : ℕ) :
    (if exp % 2 = 1 then x * y else x) * (if 0 < exp / 2 then y * y else y) ^ (exp / 2) =
      x * y ^ exp := by
  have hrest : (if 0 < exp / 2 then y * y else y) ^ (exp / 2) = y ^ (2 * (exp / 2)) := by
    split
    · rw [pow_mul, pow_two]
    · next hnot => rw [Nat.eq_zero_of_not_pos hnot, Nat.mul_zero, pow_zero]
  rw [hrest]
  split
  · next hodd =>
    rw [mul_assoc, ← pow_succ', show 2 * (exp / 2) + 1 = exp by omega]
  · next heven => rw [show 2 * (exp / 2) = exp by omega]

/-- One turn of the loop makes the errors its power is to carry. -/
theorem turn_errors (i j exp : ℕ) :
    (if exp % 2 = 1 then i + j + 1 else i) +
        exp / 2 * ((if 0 < exp / 2 then j + j + 1 else j) + 1) = i + exp * (j + 1) := by
  have hrest : exp / 2 * ((if 0 < exp / 2 then j + j + 1 else j) + 1) =
      2 * (exp / 2) * (j + 1) := by
    split
    · ring
    · next hnot => rw [Nat.eq_zero_of_not_pos hnot, Nat.zero_mul]
  rw [hrest]
  split
  · next hodd =>
    rw [show i + exp * (j + 1) = i + (2 * (exp / 2) + 1) * (j + 1) by
      rw [show 2 * (exp / 2) + 1 = exp by omega]]
    ring
  · next heven => rw [show 2 * (exp / 2) = exp by omega]

/-- The power that is still to be computed from `acc`, `base` and `exp` is `p`, and with the
errors of its factors and products it will carry `k` of them. -/
def Approximates (scale k : ℕ) (p : ℚ) (acc base exp : ℕ) : Prop :=
  scale ≤ acc ∧ scale ≤ base ∧ ∃ (i j : ℕ) (x y : ℚ), 0 ≤ x ∧ 0 ≤ y ∧
    Within (unitError ℚ scale) i (acc / scale) x ∧ Within (unitError ℚ scale) j (base / scale) y ∧
    i + exp * (j + 1) = k ∧ x * y ^ exp = p

theorem Approximates.turn {scale k acc base exp acc' base' : ℕ} {p : ℚ}
    (h : Approximates scale k p acc base exp)
    (hacc : mulDivRoundIf (exp % 2 = 1) acc base scale = .ok acc')
    (hbase : mulDivRoundIf (0 < exp / 2) base base scale = .ok base') :
    Approximates scale k p acc' base' (exp / 2) := by
  obtain ⟨ha, hb, i, j, x, y, hx, hy, hax, hby, hk, hp⟩ := h
  have hx' : 0 ≤ if exp % 2 = 1 then x * y else x := by
    split
    · exact mul_nonneg hx hy
    · exact hx
  have hy' : 0 ≤ if 0 < exp / 2 then y * y else y := by
    split
    · exact mul_nonneg hy hy
    · exact hy
  exact ⟨le_mulDivRoundIf ha hb hacc, le_mulDivRoundIf hb hb hbase, _, _, _, _, hx', hy',
    mulDivRoundIf_within ha hb hx hy hax hby hacc, mulDivRoundIf_within hb hb hy hy hby hby hbase,
    (turn_errors i j exp).trans hk, (turn_power x y exp).trans hp⟩

/-- Every factor brings its own `j` errors to the power, and one of the products. -/
theorem powFixed_within {base exp scale r j : ℕ} {y : ℚ} (hscale : scale ≠ 0)
    (hb : scale ≤ base) (hy : 0 ≤ y) (hby : Within (unitError ℚ scale) j (base / scale) y)
    (h : powFixed base exp scale = .ok r) :
    Within (unitError ℚ scale) (exp * (j + 1)) (r / scale) (y ^ exp) := by
  have hone : Within (unitError ℚ scale) 0 ((scale : ℚ) / scale) 1 := by
    rw [div_self (Nat.cast_ne_zero.mpr hscale)]
    exact .refl _ 1
  have hinit : Approximates scale (0 + exp * (j + 1)) (1 * y ^ exp) scale base exp :=
    ⟨le_rfl, hb, 0, j, 1, y, zero_le_one, hy, hone, hby, rfl, rfl⟩
  obtain ⟨_, _, _, i, j', x, y', _, _, hr, _, hk, hp⟩ :=
    powFixedLoop_induction Approximates.turn exp le_rfl hinit h
  rw [Nat.zero_mul, Nat.add_zero, Nat.zero_add] at hk
  rw [pow_zero, mul_one, one_mul] at hp
  rwa [hk, hp] at hr

/-! ## The size of a power -/

theorem mulDivRoundIf_mul_lt {due : Prop} [Decidable due] {a b scale r : ℕ}
    (ha : a * scale < 2 ^ 128) (h : mulDivRoundIf due a b scale = .ok r) :
    r * scale < 2 ^ 128 := by
  unfold mulDivRoundIf at h
  split at h
  · obtain ⟨hfits, _, rfl⟩ := mulDivRound_eq_ok.mp h
    exact Nat.lt_of_le_of_lt (Nat.div_mul_le_self _ _) hfits
  · exact (pure_eq_ok _ _).mp h ▸ ha

/-- The last product was computed before it was divided by the scale. -/
theorem powFixed_mul_lt {base exp scale r : ℕ} (hscale : scale * scale < 2 ^ 128)
    (h : powFixed base exp scale = .ok r) : r * scale < 2 ^ 128 := by
  obtain ⟨_, hr⟩ := powFixedLoop_induction (P := fun acc _ _ => acc * scale < 2 ^ 128)
    (fun hlt hacc _ => mulDivRoundIf_mul_lt hlt hacc) exp le_rfl hscale h
  exact hr

/-! ## The yield -/

/-- The daily factor of a rate in millionths. -/
def dailyFactor (apr : ℕ) : ℚ := 1 + apr / (365 * 10 ^ 6)

/-- The yearly yield of a rate compounded daily, both in millionths. -/
def exactApy (apr : ℕ) : ℚ := 10 ^ 6 * (dailyFactor apr ^ 365 - 1)

theorem one_le_dailyFactor (apr : ℕ) : 1 ≤ dailyFactor apr :=
  le_add_of_nonneg_right (by positivity)

theorem calculateApyFromApr_steps {apr apy : UInt64} (h : calculateApyFromApr apr = .ok apy) :
    ∃ pow, compound apr = .ok pow ∧
      apy.toNat = ((pow - intScale) * extScale + intScale / 2) / intScale := by
  simp only [calculateApyFromApr, bind_eq_ok, okOr_eq_ok, checkedSub_eq_some,
    mulDivRound_eq_ok, require_eq_ok, pure_eq_ok] at h
  obtain ⟨pow, hpow, apyInt, ⟨_, hint⟩, apyScaled, ⟨_, _, hscaled⟩, _, hlt, hapy⟩ := h
  refine ⟨pow, hpow, ?_⟩
  rw [← hint, hscaled, ← hapy, toNat_ofNat_of_lt hlt]

theorem cast_intScale : (intScale : ℚ) = 10 ^ 18 := by
  norm_num [intScale]

/-- The increment is rounded once. -/
theorem fixedFactor_within (apr : ℕ) :
    Within (unitError ℚ intScale) 1 (fixedFactor apr / intScale) (dailyFactor apr) := by
  apply within_of_abs_sub_scale_le (by decide) (one_le_dailyFactor apr)
  have hround := abs_halfUp_sub_le (K := ℚ) (intScale * apr) (d := extScale * compoundings)
    (by decide)
  have heq : (fixedFactor apr : ℚ) - intScale * dailyFactor apr =
      (((intScale * apr + extScale * compoundings / 2) / (extScale * compoundings) : ℕ) : ℚ) -
        ((intScale * apr : ℕ) : ℚ) / ((extScale * compoundings : ℕ) : ℚ) := by
    unfold fixedFactor dailyFactor
    rw [Nat.cast_add, Nat.cast_mul intScale apr, Nat.cast_mul extScale compoundings]
    norm_num [extScale, compoundings]
    ring
  rwa [heq]

/-- Before it is rounded to millionths, the yield is off by less than a thousandth of one. -/
theorem powFixed_near {apr pow : ℕ}
    (h : powFixed (fixedFactor apr) compoundings intScale = .ok pow) :
    |10 ^ 6 * ((pow : ℚ) / intScale - 1) - exactApy apr| ≤ 1 / 1000 := by
  have hle : intScale ≤ fixedFactor apr := Nat.le_add_right _ _
  have hfactor : 0 ≤ dailyFactor apr := zero_le_one.trans (one_le_dailyFactor apr)
  have hwithin := powFixed_within (by decide) hle hfactor (fixedFactor_within apr) h
  have hnear := hwithin.abs_sub_le (unitError_nonneg ℚ _) (unitError_le_one ℚ _) (by positivity)
    (by norm_num [unitError, cast_intScale, compoundings])
  have hsize : (pow : ℚ) / intScale ≤ 341 := by
    have hlt := powFixed_mul_lt (by decide) h
    have hlt' : (pow : ℚ) * intScale < 2 ^ 128 := by exact_mod_cast hlt
    rw [cast_intScale] at hlt' ⊢
    rw [div_le_iff₀ (by norm_num)]
    linarith
  have herrors : 2 * (((compoundings * (1 + 1) : ℕ) : ℚ) * unitError ℚ intScale) ≤
      1 / 10 ^ 15 := by
    norm_num [unitError, cast_intScale, compoundings]
  have hpow : (0 : ℚ) ≤ pow / intScale := by positivity
  have hdiff : 10 ^ 6 * ((pow : ℚ) / intScale - 1) - exactApy apr =
      10 ^ 6 * ((pow : ℚ) / intScale - dailyFactor apr ^ compoundings) := by
    unfold exactApy compoundings
    ring
  rw [hdiff, abs_mul, abs_of_pos (by norm_num : (0 : ℚ) < 10 ^ 6)]
  calc (10 : ℚ) ^ 6 * |(pow : ℚ) / intScale - dailyFactor apr ^ compoundings|
      ≤ 10 ^ 6 * (1 / 10 ^ 15 * (pow / intScale)) := by
        gcongr
        exact hnear.trans (mul_le_mul_of_nonneg_right herrors hpow)
    _ ≤ 10 ^ 6 * (1 / 10 ^ 15 * 341) := by gcongr
    _ ≤ 1 / 1000 := by norm_num

/-- The yield before it is rounded to millionths, and the yield. -/
theorem calculateApyFromApr_near {apr apy : UInt64} (h : calculateApyFromApr apr = .ok apy) :
    |(apy.toNat : ℚ) - exactApy apr.toNat| ≤ 1 / 2 + 1 / 1000 := by
  obtain ⟨pow, hpow, hapy⟩ := calculateApyFromApr_steps h
  have hle := le_of_compound hpow
  have hround := abs_halfUp_sub_le (K := ℚ) ((pow - intScale) * extScale) (d := intScale)
    (by decide)
  have heq : (((pow - intScale) * extScale : ℕ) : ℚ) / intScale =
      10 ^ 6 * ((pow : ℚ) / intScale - 1) := by
    rw [Nat.cast_mul, Nat.cast_sub hle, cast_intScale]
    norm_num [extScale]
    ring
  rw [← hapy, heq] at hround
  calc |(apy.toNat : ℚ) - exactApy apr.toNat|
      ≤ |(apy.toNat : ℚ) - 10 ^ 6 * ((pow : ℚ) / intScale - 1)| +
          |10 ^ 6 * ((pow : ℚ) / intScale - 1) - exactApy apr.toNat| := abs_sub_le _ _ _
    _ ≤ 1 / 2 + 1 / 1000 := add_le_add hround (powFixed_near (compound_eq_ok hpow))

/-- A yield is off by at most a millionth, for every rate that has one. -/
theorem calculateApyFromApr_accurate {apr apy : UInt64}
    (h : calculateApyFromApr apr = .ok apy) :
    |(apy.toNat : ℚ) - 10 ^ 6 * ((1 + apr.toNat / (365 * 10 ^ 6)) ^ 365 - 1)| ≤ 1 :=
  (calculateApyFromApr_near h).trans (by norm_num)

theorem calculateApyFromApr_accurate_tenth :
    calculateApyFromApr 100000 = .ok 105156 ∧
      |(UInt64.toNat 105156 : ℚ) -
        10 ^ 6 * ((1 + UInt64.toNat 100000 / (365 * 10 ^ 6)) ^ 365 - 1)| ≤ 1 :=
  have h : calculateApyFromApr 100000 = .ok 105156 := by decide +kernel
  ⟨h, calculateApyFromApr_accurate h⟩

/-! ## Order -/

/-- Compounding gains. -/
theorem le_exactApy (apr : ℕ) : (apr : ℚ) ≤ exactApy apr := by
  have hbernoulli := one_add_mul_le_pow (a := (apr : ℚ) / (365 * 10 ^ 6))
    (by linarith [show (0 : ℚ) ≤ apr / (365 * 10 ^ 6) by positivity]) 365
  have hlinear : ((365 : ℕ) : ℚ) * (apr / (365 * 10 ^ 6)) = apr / 10 ^ 6 := by
    push_cast
    ring
  rw [hlinear] at hbernoulli
  unfold exactApy dailyFactor
  generalize (1 + (apr : ℚ) / (365 * 10 ^ 6)) ^ 365 = power at *
  linarith

/-- What compounding gains outweighs what rounding loses. -/
theorem le_calculateApyFromApr {apr apy : UInt64} (h : calculateApyFromApr apr = .ok apy) :
    apr ≤ apy := by
  have hnear := (abs_le.mp (calculateApyFromApr_near h)).1
  have hgain := le_exactApy apr.toNat
  rw [UInt64.le_iff_toNat_le]
  by_contra hlt
  have hsucc : ((apy.toNat + 1 : ℕ) : ℚ) ≤ apr.toNat := Nat.cast_le.mpr (Nat.not_le.mp hlt)
  push_cast at hsucc
  linarith

/-- Yields are ordered as their rates, and no rate is above its yield; a rate above one that
has no yield has none, and the subtraction of 1.0 never fails. -/
theorem calculateApyFromApr_order :
    (∀ a b y : UInt64, a ≤ b → calculateApyFromApr b = .ok y →
      ∃ x, calculateApyFromApr a = .ok x ∧ x ≤ y) ∧
    (∀ a b : UInt64, ∀ e, a ≤ b → calculateApyFromApr a = .error e →
      ∃ e', calculateApyFromApr b = .error e') ∧
    (∀ a y : UInt64, calculateApyFromApr a = .ok y → a ≤ y) ∧
    calculateApyFromApr 0 = .ok 0 ∧
    ∀ (a : UInt64) (pow : ℕ), compound a = .ok pow → checkedSub pow intScale ≠ none := by
  refine ⟨fun a b y hle h => calculateApyFromApr_below hle y h, ?_,
    fun a y h => le_calculateApyFromApr h, by decide +kernel, ?_⟩
  · intro a b e hle hfails
    cases hb : calculateApyFromApr b with
    | ok y =>
      obtain ⟨x, hx, _⟩ := calculateApyFromApr_below hle y hb
      rw [hfails] at hx
      cases hx
    | error e' => exact ⟨e', rfl⟩
  · intro a pow h hnone
    exact absurd ((checkedSub_eq_none _ _).mp hnone) (Nat.not_lt.mpr (le_of_compound h))

theorem calculateApyFromApr_order_tenth :
    (∃ x, calculateApyFromApr 100000 = .ok x ∧ x ≤ 221336) ∧
      (∃ e, calculateApyFromApr 5876583 = .error e) ∧ (100000 : UInt64) ≤ 105156 ∧
      checkedSub 1000000000000000000 intScale ≠ none := by
  obtain ⟨hbelow, hfails, hge, _, hsub⟩ := calculateApyFromApr_order
  have hzero : compound 0 = .ok 1000000000000000000 := by decide +kernel
  have htenth : calculateApyFromApr 100000 = .ok 105156 := by decide +kernel
  have hfifth : calculateApyFromApr 200000 = .ok 221336 := by decide +kernel
  have hover : calculateApyFromApr 5876582 = .error (.getAPY .overflow) := by decide +kernel
  exact ⟨hbelow _ _ _ (by decide) hfifth, hfails _ _ _ (by decide) hover, hge _ _ htenth,
    hsub _ _ hzero⟩

end OnreApp.Program
