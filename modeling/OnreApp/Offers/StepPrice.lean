import OnreApp.Library.Intervals
import OnreApp.Offers.OfferUtils

/-!
# The step price, exactly

The price over the integers, and that the checked arithmetic computes it wherever it fits 64
bits: no product on the way overflows before the price does.
-/
namespace OnreApp.Offers

open Library.Checked Library.Intervals Library.Outcome

/-- `SCALE * SECONDS_IN_YEAR`, what a yearly rate is a share of. -/
def growthScale : ℕ := aprScale * secondsInYear

theorem growthScale_pos : 0 < growthScale := by decide

/-- The price after `elapsed` seconds. -/
def vectorPrice (apr basePrice elapsed : ℕ) : ℕ := grown growthScale basePrice (apr * elapsed)

/-- The price at the end of the interval that `time` lies in. -/
def stepPrice (apr basePrice baseTime priceFixDuration time : ℕ) : ℕ :=
  let k := (time - baseTime) / priceFixDuration
  basePrice * (growthScale + apr * ((k + 1) * priceFixDuration)) / growthScale

theorem stepPrice_eq (apr basePrice baseTime priceFixDuration time : ℕ) :
    stepPrice apr basePrice baseTime priceFixDuration time =
      vectorPrice apr basePrice (intervalEnd priceFixDuration (time - baseTime)) := rfl

theorem mul_toNat_le (x y : UInt64) : x.toNat * y.toNat ≤ (2 ^ 64 - 1) * (2 ^ 64 - 1) :=
  Nat.mul_le_mul (Nat.le_sub_one_of_lt x.toNat_lt) (Nat.le_sub_one_of_lt y.toNat_lt)

theorem calculateVectorPrice_eq (apr basePrice elapsed : UInt64) :
    calculateVectorPrice apr basePrice elapsed =
      if vectorPrice apr.toNat basePrice.toNat elapsed.toNat < 2 ^ 64 then
        .ok (UInt64.ofNat (vectorPrice apr.toNat basePrice.toNat elapsed.toNat))
      else .error (.offerCore .overflowError) := by
  have hle := mul_toNat_le apr elapsed
  have hden : checkedMul 128 aprScale secondsInYear = some growthScale :=
    checkedMul_eq_some.mpr ⟨by decide, rfl⟩
  have hy : checkedMul 128 apr.toNat elapsed.toNat = some (apr.toNat * elapsed.toNat) :=
    checkedMul_eq_some.mpr ⟨hle.trans_lt (by decide), rfl⟩
  have hnum : checkedAdd 128 growthScale (apr.toNat * elapsed.toNat) =
      some (growthScale + apr.toNat * elapsed.toNat) :=
    checkedAdd_eq_some.mpr ⟨(Nat.add_le_add_left hle growthScale).trans_lt (by decide), rfl⟩
  rw [calculateVectorPrice, hden, okOr, ok_bind, hy, okOr, ok_bind, hnum, okOr, ok_bind]
  rcases Nat.lt_or_ge (basePrice.toNat * (growthScale + apr.toNat * elapsed.toNat)) (2 ^ 128) with
    hlt | hge
  · rw [checkedMul_eq_some.mpr ⟨hlt, rfl⟩, okOr, ok_bind]
    show require (vectorPrice _ _ _ < 2 ^ 64) _ >>= _ = _
    rw [require]
    split
    · rfl
    · rfl
  · rw [(checkedMul_eq_none _ _ _).mpr hge, okOr, error_bind]
    have hbig : 2 ^ 64 ≤ vectorPrice apr.toNat basePrice.toNat elapsed.toNat :=
      le_grown_of_overflow (n := 2 ^ 64) growthScale_pos (by decide) hge
    rw [if_neg (Nat.not_lt.mpr hbig)]

section Steps

variable {apr basePrice baseTime priceFixDuration time : UInt64}

/-- Below 2^63 the end of an interval still fits 64 bits. -/
theorem intervalEnd_lt (baseTime : UInt64) (hd : 0 < priceFixDuration.toNat)
    (ht : time.toNat < 2 ^ 63) :
    intervalEnd priceFixDuration.toNat (time.toNat - baseTime.toNat) < 2 ^ 64 := by
  rcases Nat.lt_or_ge (time.toNat - baseTime.toNat) priceFixDuration.toNat with hlt | hge
  · -- The first interval ends after one duration, however long that is.
    rw [intervalEnd, Nat.div_eq_of_lt hlt, Nat.zero_add, Nat.one_mul]
    exact priceFixDuration.toNat_lt
  · have hle := intervalEnd_le priceFixDuration.toNat (time.toNat - baseTime.toNat)
    omega

theorem calculateStepPriceAt_eq_vectorPrice (hd : 0 < priceFixDuration) (hb : baseTime ≤ time)
    (hend : intervalEnd priceFixDuration.toNat (time.toNat - baseTime.toNat) < 2 ^ 64) :
    calculateStepPriceAt apr basePrice baseTime priceFixDuration time =
      calculateVectorPrice apr basePrice
        (UInt64.ofNat (intervalEnd priceFixDuration.toNat (time.toNat - baseTime.toNat))) := by
  have hpos : 0 < priceFixDuration.toNat := UInt64.lt_iff_toNat_lt.mp hd
  have hne : priceFixDuration ≠ 0 := by
    intro he
    rw [he] at hpos
    exact Nat.lt_irrefl 0 hpos
  have hstep : (time.toNat - baseTime.toNat) / priceFixDuration.toNat + 1 < 2 ^ 64 := by
    refine Nat.lt_of_le_of_lt ?_ hend
    exact Nat.le_mul_of_pos_right _ hpos
  simp only [calculateStepPriceAt, require, if_pos hb, if_pos hne, ok_bind,
    checkedAdd_eq_some.mpr ⟨hstep, rfl⟩, okOr, checkedMul_eq_some.mpr ⟨hend, rfl⟩]
  rfl

/-- A price that is returned is exact, at any time. -/
theorem calculateStepPriceAt_ok {price : UInt64}
    (h : calculateStepPriceAt apr basePrice baseTime priceFixDuration time = .ok price) :
    price.toNat = stepPrice apr.toNat basePrice.toNat baseTime.toNat priceFixDuration.toNat
      time.toNat := by
  simp only [calculateStepPriceAt, bind_eq_ok, require_eq_ok, okOr_eq_ok, checkedAdd_eq_some,
    checkedMul_eq_some] at h
  obtain ⟨_, _, _, _, _, ⟨_, rfl⟩, _, ⟨hend, rfl⟩, hprice⟩ := h
  rw [calculateVectorPrice_eq, toNat_ofNat_of_lt hend] at hprice
  split at hprice
  · next hlt =>
    rw [← Except.ok.inj hprice]
    exact toNat_ofNat_of_lt hlt
  · cases hprice

theorem stepPrice_mono {apr basePrice baseTime d t t' : ℕ} (h : t ≤ t') :
    stepPrice apr basePrice baseTime d t ≤ stepPrice apr basePrice baseTime d t' := by
  rw [stepPrice_eq, stepPrice_eq]
  apply grown_mono
  apply Nat.mul_le_mul_left
  apply intervalEnd_mono
  exact Nat.sub_le_sub_right h baseTime

/-- Within one interval the computation does not see the time. -/
theorem calculateStepPriceAt_congr {time' : UInt64} (hb : baseTime ≤ time) (hb' : baseTime ≤ time')
    (h : (time.toNat - baseTime.toNat) / priceFixDuration.toNat =
      (time'.toNat - baseTime.toNat) / priceFixDuration.toNat) :
    calculateStepPriceAt apr basePrice baseTime priceFixDuration time =
      calculateStepPriceAt apr basePrice baseTime priceFixDuration time' := by
  simp only [calculateStepPriceAt, require, if_pos hb, if_pos hb', ok_bind, h]

end Steps

/-- The price of an offer: the step price of the vector that is active. -/
def exactPrice (offer : Offer) (now : UInt64) : ℕ :=
  match findActiveVectorAt offer now with
  | .ok v => stepPrice v.apr.toNat v.basePrice.toNat v.baseTime.toNat v.priceFixDuration.toNat
      now.toNat
  | .error _ => 0

theorem currentPrice_ok {env : Program.Env} {offer : Offer} {price : UInt64}
    (h : currentPrice env offer = .ok price) : price.toNat = exactPrice offer env.now := by
  simp only [currentPrice, bind_eq_ok] at h
  obtain ⟨v, hv, hprice⟩ := h
  rw [exactPrice, hv]
  exact calculateStepPriceAt_ok hprice

/-- The price of a step is the exact one wherever that fits, and an overflow elsewhere; it is
constant on each interval, does not fall, and is never below the base price. -/
theorem step_price_exact {apr basePrice baseTime priceFixDuration : UInt64}
    (hd : 0 < priceFixDuration) :
    (∀ t, baseTime ≤ t → t.toNat < 2 ^ 63 →
      calculateStepPriceAt apr basePrice baseTime priceFixDuration t =
        let price := stepPrice apr.toNat basePrice.toNat baseTime.toNat priceFixDuration.toNat
          t.toNat
        if price < 2 ^ 64 then .ok (UInt64.ofNat price) else .error (.offerCore .overflowError)) ∧
    (∀ (k : ℕ) (t t' : UInt64),
      t.toNat ∈ Set.Ico (baseTime.toNat + k * priceFixDuration.toNat)
        (baseTime.toNat + (k + 1) * priceFixDuration.toNat) →
      t'.toNat ∈ Set.Ico (baseTime.toNat + k * priceFixDuration.toNat)
        (baseTime.toNat + (k + 1) * priceFixDuration.toNat) →
        calculateStepPriceAt apr basePrice baseTime priceFixDuration t =
          calculateStepPriceAt apr basePrice baseTime priceFixDuration t') ∧
    (∀ t t' price price', t ≤ t' →
      calculateStepPriceAt apr basePrice baseTime priceFixDuration t = .ok price →
      calculateStepPriceAt apr basePrice baseTime priceFixDuration t' = .ok price' →
        price ≤ price') ∧
    ∀ t price, calculateStepPriceAt apr basePrice baseTime priceFixDuration t = .ok price →
      basePrice ≤ price := by
  have hpos : 0 < priceFixDuration.toNat := UInt64.lt_iff_toNat_lt.mp hd
  constructor
  · intro t hb ht
    have hend := intervalEnd_lt baseTime hpos ht
    rw [calculateStepPriceAt_eq_vectorPrice hd hb hend, calculateVectorPrice_eq,
      toNat_ofNat_of_lt hend]
    rfl
  constructor
  · intro k t t' ht ht'
    -- Both times lie in interval `k`.
    have hstep : ∀ {t : UInt64}, t.toNat ∈ Set.Ico (baseTime.toNat + k * priceFixDuration.toNat)
        (baseTime.toNat + (k + 1) * priceFixDuration.toNat) →
        baseTime ≤ t ∧ (t.toNat - baseTime.toNat) / priceFixDuration.toNat = k := by
      intro t ht
      obtain ⟨hlow, hhigh⟩ := ht
      constructor
      · exact UInt64.le_iff_toNat_le.mpr (by omega)
      · exact div_eq_of_mem (by omega) (by omega)
    obtain ⟨hb, hk⟩ := hstep ht
    obtain ⟨hb', hk'⟩ := hstep ht'
    exact calculateStepPriceAt_congr hb hb' (hk.trans hk'.symm)
  constructor
  · intro t t' price price' hle h h'
    rw [UInt64.le_iff_toNat_le, calculateStepPriceAt_ok h, calculateStepPriceAt_ok h']
    exact stepPrice_mono (UInt64.le_iff_toNat_le.mp hle)
  · intro t price h
    rw [UInt64.le_iff_toNat_le, calculateStepPriceAt_ok h, stepPrice_eq]
    exact le_grown growthScale_pos _ _

/-- A price of one at 10% a year in daily steps. -/
theorem step_price_exact_sample :
    calculateStepPriceAt 100000 1000000000 1000 86400 87400 = .ok 1000547945 := by
  have hexact := (@step_price_exact 100000 1000000000 1000 86400 (by decide)).1 87400
    (by decide) (by decide)
  rw [hexact]
  decide

end OnreApp.Offers
