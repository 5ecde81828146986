import OnreApp.Redemption.ConversionLaws

/-!
# When a conversion returns its exact value

Both conversions multiply in 128 bits, divide, and narrow the quotient to 64 bits. What
they return is the exact quotient. What they reject is a numerator of 128 bits or more,
also where its quotient would fit, and a quotient of 64 bits or more.
-/
namespace OnreApp.Redemption

open Library.Checked Library.Outcome Offers Tokens Utils

/-- The quotient, where the numerator fits 128 bits and the quotient 64. -/
def narrowedQuotient (numerator denominator : ℕ) (tooWide tooLarge : Error) :
    Except Error UInt64 :=
  if numerator < 2 ^ 128 then
    if numerator / denominator < 2 ^ 64 then .ok (UInt64.ofNat (numerator / denominator))
    else .error tooLarge
  else .error tooWide

section NarrowedQuotient

variable {n d : ℕ} {tooWide tooLarge : Error}

theorem narrowedQuotient_eq_ok {q : UInt64} :
    narrowedQuotient n d tooWide tooLarge = .ok q ↔ n < 2 ^ 128 ∧ q.toNat = n / d := by
  unfold narrowedQuotient
  by_cases hn : n < 2 ^ 128
  · by_cases hq : n / d < 2 ^ 64
    · rw [if_pos hn, if_pos hq]
      constructor
      · intro h
        rw [← Except.ok.inj h]
        exact ⟨hn, toNat_ofNat_of_lt hq⟩
      · intro h
        exact congrArg _ (ofNat_eq_of_toNat h.2)
    · rw [if_pos hn, if_neg hq]
      constructor
      · intro h
        cases h
      · intro h
        exact absurd (h.2 ▸ q.toNat_lt) hq
  · rw [if_neg hn]
    constructor
    · intro h
      cases h
    · intro h
      exact absurd h.1 hn

/-- A divisor of at most 64 bits never meets a numerator that is too wide for a quotient
that fits. -/
theorem lt_of_div_lt (hd : d ≤ 2 ^ 64) (hpos : 0 < d) (hq : n / d < 2 ^ 64) : n < 2 ^ 128 := by
  have hlt : n < 2 ^ 64 * d := (Nat.div_lt_iff_lt_mul hpos).mp hq
  have hle : 2 ^ 64 * d ≤ 2 ^ 64 * 2 ^ 64 := Nat.mul_le_mul_left _ hd
  omega

end NarrowedQuotient

theorem ten_pow_le {d : ℕ} (h : d ≤ 19) : 10 ^ d ≤ 2 ^ 64 :=
  (Nat.pow_le_pow_right (by decide) h).trans (by decide)

theorem ten_pow_lt {d : ℕ} (h : d ≤ 27) : 10 ^ d < 2 ^ 128 :=
  (Nat.pow_le_pow_right (by decide) h).trans_lt (by decide)

theorem pow10_of_le {d : ℕ} (h : d ≤ 27) : pow10 d = .ok (10 ^ d) :=
  pow10_eq_ok.mpr ⟨ten_pow_lt h, rfl⟩

theorem checkedMul_of_lt {w a b : ℕ} (h : a * b < 2 ^ w) : checkedMul w a b = some (a * b) :=
  if_pos h

section Conversions

variable {amount price : UInt64} {inDec outDec : UInt8}

theorem calculateTokenOutAmount_eq (hprice : 0 < price) (hi : inDec ≤ maxTokenDecimals)
    (ho : outDec ≤ maxTokenDecimals) :
    calculateTokenOutAmount amount price inDec outDec =
      narrowedQuotient (amount.toNat * 10 ^ (outDec.toNat + priceDecimals))
        (price.toNat * 10 ^ inDec.toNat) (.tokenUtils .mathOverflow)
        (.tokenUtils .resultOverflow) := by
  have hi' : inDec.toNat ≤ 18 := UInt8.le_iff_toNat_le.mp hi
  have ho' : outDec.toNat ≤ 18 := UInt8.le_iff_toNat_le.mp ho
  have hden : price.toNat * 10 ^ inDec.toNat < 2 ^ 128 := by
    have hle : 10 ^ inDec.toNat ≤ 2 ^ 64 := ten_pow_le (by omega)
    exact (Nat.mul_lt_mul_of_lt_of_le price.toNat_lt hle (Nat.two_pow_pos 64)).trans_le (by decide)
  have hout : pow10 (outDec.toNat + priceDecimals) = .ok (10 ^ (outDec.toNat + priceDecimals)) :=
    pow10_of_le (by rw [priceDecimals]; omega)
  have hin : pow10 inDec.toNat = .ok (10 ^ inDec.toNat) := pow10_of_le (by omega)
  simp only [calculateTokenOutAmount, require, if_pos hprice, if_pos hi, if_pos ho, ok_bind,
    hout, hin, checkedMul_of_lt hden, okOr, narrowedQuotient]
  by_cases hn : amount.toNat * 10 ^ (outDec.toNat + priceDecimals) < 2 ^ 128
  · rw [checkedMul_of_lt hn, if_pos hn]
    simp only [ok_bind]
    split
    · rfl
    · rfl
  · rw [checkedMul, if_neg hn, if_neg hn]
    rfl

/-- The conversion over the three powers of ten it computes. -/
theorem redemptionTokenOut_eq_of_scales {outScale inScale priceScale : ℕ}
    (hout : pow10 outDec.toNat = .ok outScale) (hin : pow10 inDec.toNat = .ok inScale)
    (hp : pow10 priceDecimals = .ok priceScale) (hden : inScale * priceScale < 2 ^ 128) :
    redemptionTokenOut amount price inDec outDec =
      narrowedQuotient (amount.toNat * price.toNat * outScale) (inScale * priceScale)
        (.redemptionCore .overflowError) (.redemptionCore .overflowError) := by
  have hpriced : amount.toNat * price.toNat < 2 ^ 128 :=
    (Nat.mul_lt_mul'' amount.toNat_lt price.toNat_lt).trans_le (by decide)
  simp only [redemptionTokenOut, require, checkedMul_of_lt hpriced, checkedMul_of_lt hden, hout,
    hin, hp, ok_bind, okOr, narrowedQuotient]
  by_cases hn : amount.toNat * price.toNat * outScale < 2 ^ 128
  · rw [checkedMul_of_lt hn, if_pos hn]
    simp only [ok_bind]
    split
    · rfl
    · rfl
  · rw [checkedMul, if_neg hn, if_neg hn]
    rfl

theorem redemptionTokenOut_eq (hi : inDec ≤ maxTokenDecimals) (ho : outDec ≤ maxTokenDecimals) :
    redemptionTokenOut amount price inDec outDec =
      narrowedQuotient (amount.toNat * price.toNat * 10 ^ outDec.toNat)
        (10 ^ (inDec.toNat + priceDecimals)) (.redemptionCore .overflowError)
        (.redemptionCore .overflowError) := by
  have hi' : inDec.toNat ≤ 18 := UInt8.le_iff_toNat_le.mp hi
  have ho' : outDec.toNat ≤ 18 := UInt8.le_iff_toNat_le.mp ho
  have hscale : 10 ^ inDec.toNat * 10 ^ priceDecimals = 10 ^ (inDec.toNat + priceDecimals) :=
    (Nat.pow_add ..).symm
  have hden : 10 ^ inDec.toNat * 10 ^ priceDecimals < 2 ^ 128 := by
    rw [hscale]
    exact ten_pow_lt (by rw [priceDecimals]; omega)
  rw [← hscale]
  exact redemptionTokenOut_eq_of_scales (pow10_of_le (by omega)) (pow10_of_le (by omega))
    (pow10_of_le (by decide)) hden

end Conversions

/-- Both conversions return the exact quotient where it and the 128-bit numerator fit, and an
error otherwise. With at most 10 decimals on the side whose power of ten scales the result,
the numerator of a quotient that fits always fits. -/
theorem conversions_exact_within_u128 (amount price : UInt64) (inDec outDec : UInt8)
    (hprice : 0 < price) (hi : inDec ≤ maxTokenDecimals) (ho : outDec ≤ maxTokenDecimals) :
    calculateTokenOutAmount amount price inDec outDec =
        narrowedQuotient (amount.toNat * 10 ^ (outDec.toNat + priceDecimals))
          (price.toNat * 10 ^ inDec.toNat) (.tokenUtils .mathOverflow)
          (.tokenUtils .resultOverflow) ∧
      redemptionTokenOut amount price inDec outDec =
        narrowedQuotient (amount.toNat * price.toNat * 10 ^ outDec.toNat)
          (10 ^ (inDec.toNat + priceDecimals)) (.redemptionCore .overflowError)
          (.redemptionCore .overflowError) ∧
      (outDec ≤ 10 → amount.toNat * 10 ^ (outDec.toNat + priceDecimals) < 2 ^ 128) ∧
      (inDec ≤ 10 →
        amount.toNat * price.toNat * 10 ^ outDec.toNat / 10 ^ (inDec.toNat + priceDecimals) <
          2 ^ 64 → amount.toNat * price.toNat * 10 ^ outDec.toNat < 2 ^ 128) := by
  refine ⟨calculateTokenOutAmount_eq hprice hi ho, redemptionTokenOut_eq hi ho, ?_, ?_⟩
  · intro h
    have hle : 10 ^ (outDec.toNat + priceDecimals) ≤ 2 ^ 64 :=
      ten_pow_le (Nat.add_le_add_right (UInt8.le_iff_toNat_le.mp h) _)
    exact (Nat.mul_lt_mul_of_lt_of_le amount.toNat_lt hle (Nat.two_pow_pos 64)).trans_le (by decide)
  · intro h hq
    have hle : 10 ^ (inDec.toNat + priceDecimals) ≤ 2 ^ 64 :=
      ten_pow_le (Nat.add_le_add_right (UInt8.le_iff_toNat_le.mp h) _)
    exact lt_of_div_lt hle (Nat.pow_pos (by decide)) hq

/-- 10 USDC (6 decimals) at price 1.5 into a token of 9 decimals, and back. -/
theorem conversions_exact_within_u128_usdc :
    calculateTokenOutAmount 10000000 1500000000 6 9 = .ok 6666666666 ∧
      10000000 * 10 ^ (9 + priceDecimals) < 2 ^ 128 := by
  have h := conversions_exact_within_u128 10000000 1500000000 6 9 (by decide) (by decide)
    (by decide)
  exact ⟨h.1.trans (narrowedQuotient_eq_ok.mpr (by decide)), h.2.2.1 (by decide)⟩

/-- With 18 decimals on both sides and price 1, an amount of 10 ^ 12 base units converts to
itself, which fits; both conversions reject it for their numerators. -/
theorem conversion_rejects_representable :
    (10 ^ 12 * 10 ^ (18 + priceDecimals) / (10 ^ 9 * 10 ^ 18) = 10 ^ 12 ∧
      calculateTokenOutAmount 1000000000000 1000000000 18 18 =
        .error (.tokenUtils .mathOverflow)) ∧
    (10 ^ 12 * 10 ^ 9 * 10 ^ 18 / 10 ^ (18 + priceDecimals) = 10 ^ 12 ∧
      redemptionTokenOut 1000000000000 1000000000 18 18 =
        .error (.redemptionCore .overflowError)) ∧ 10 ^ 12 < 2 ^ 64 := by
  decide +kernel

end OnreApp.Redemption
