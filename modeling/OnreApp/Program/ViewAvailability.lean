import OnreApp.Program.Apy
import OnreApp.Program.NextPriceChange

/-!
# When the market views answer

Whenever an offer can be priced, `get_nav` returns that price if the end of the current
interval is a time that fits 64 bits, and `get_apy` returns the yield if the rate has one.
Otherwise they report the overflow.
-/
namespace OnreApp.Program

open Library.Checked Library.Intervals Library.Outcome Library.Run Offers Tokens

section Views

variable {env : Env} {ctx : OfferView} {w : World} {p : Offer × MintAccount} {v : OfferVector}
  {price : UInt64}

/-- Where there is a price, the end of the interval is all that can be missing. -/
theorem nextIntervalTimestamp_eq (hprice : stepPriceAt v env.now = .ok price) :
    nextIntervalTimestamp env.now v =
      if intervalStop v env.now < 2 ^ 64 then .ok (intervalStop v env.now)
      else .error (.offerCore .overflowError) := by
  simp only [stepPriceAt, calculateStepPriceAt, bind_eq_ok, require_eq_ok, okOr_eq_ok,
    checkedAdd_eq_some, checkedMul_eq_some] at hprice
  obtain ⟨_, _, _, hd, _, ⟨hstep, rfl⟩, _, ⟨hend, rfl⟩, _⟩ := hprice
  by_cases hstop : intervalStop v env.now < 2 ^ 64
  · rw [if_pos hstop]
    exact nextIntervalTimestamp_eq_ok.mpr ⟨hd, hstop, rfl⟩
  · have hadd := (checkedAdd_eq_none 64 v.baseTime.toNat
      (intervalEnd v.priceFixDuration.toNat (env.now.toNat - v.baseTime.toNat))).mpr
        (Nat.not_lt.mp hstop)
    have hmul : checkedMul 64 ((env.now.toNat - v.baseTime.toNat) / v.priceFixDuration.toNat + 1)
        v.priceFixDuration.toNat = some (intervalEnd v.priceFixDuration.toNat
          (env.now.toNat - v.baseTime.toNat)) := checkedMul_eq_some.mpr ⟨hend, rfl⟩
    simp only [nextIntervalTimestamp, require, if_pos hd, ok_bind,
      checkedAdd_eq_some.mpr ⟨hstep, rfl⟩, hmul, hadd, okOr, if_neg hstop]

theorem getNav_eq (hload : ctx.load w = .ok p) (hv : findActiveVectorAt p.1 env.now = .ok v)
    (hprice : stepPriceAt v env.now = .ok price) :
    getNav env ctx w = if intervalStop v env.now < 2 ^ 64 then
        .ok ⟨price, env.now, nextChange p.1 env.now v⟩
      else .error (.offerCore .overflowError) := by
  have hstop := nextIntervalTimestamp_eq hprice
  have hcurrent : calculateCurrentStepPrice env v.apr v.basePrice v.baseTime v.priceFixDuration =
      .ok price := hprice
  simp only [getNav, hload, hv, hcurrent, hstop, ok_bind]
  split
  · rfl
  · rfl

theorem getApy_eq (hload : ctx.load w = .ok p) (hv : findActiveVectorAt p.1 env.now = .ok v) :
    getApy env ctx w =
      (calculateApyFromApr v.apr).map fun apy => ⟨apy, v.apr, env.now⟩ := by
  simp only [getApy, hload, hv, ok_bind]
  cases calculateApyFromApr v.apr with
  | ok apy => rfl
  | error e => rfl

end Views

/-- At any time at which the accounts are accepted and the offer can be priced: `get_nav`
returns that price if the end of the interval fits, and otherwise an overflow; `get_apy`
returns the yield of the active vector's rate if that rate has one, and otherwise an overflow. -/
theorem views_available (env : Env) (ctx : OfferView) (w : World) (p : Offer × MintAccount)
    (v : OfferVector) (price : UInt64) (hload : ctx.load w = .ok p)
    (hv : findActiveVectorAt p.1 env.now = .ok v) (hprice : stepPriceAt v env.now = .ok price) :
    (intervalStop v env.now < 2 ^ 64 → (getNav env ctx w).map (·.currentPrice) = .ok price) ∧
    (2 ^ 64 ≤ intervalStop v env.now →
      getNav env ctx w = .error (.offerCore .overflowError)) ∧
    (v.apr ≤ maxApr → ∃ apy, calculateApyFromApr v.apr = .ok apy ∧
      getApy env ctx w = .ok ⟨apy, v.apr, env.now⟩) ∧
    (maxApr < v.apr → getApy env ctx w = .error (.getAPY .overflow)) := by
  rw [getNav_eq hload hv hprice, getApy_eq hload hv]
  refine ⟨?_, ?_, ?_, ?_⟩
  · intro hstop
    rw [if_pos hstop]
    rfl
  · intro hstop
    rw [if_neg (Nat.not_lt.mpr hstop)]
  · intro hapr
    obtain ⟨apy, hapy⟩ := calculateApyFromApr_ok_iff.mpr hapr
    rw [hapy]
    exact ⟨apy, rfl, rfl⟩
  · intro hapr
    rw [calculateApyFromApr_overflow hapr]
    rfl

/-- An offer with one vector from 1000 on, at a price of one. -/
def Sample.growing (apr priceFixDuration : UInt64) : List Action :=
  [act (.initializeState ⟨boss, some programDataAddress, onyc⟩),
    act (.makeOffer ⟨usdc, .token, onyc, boss⟩ 0 false true),
    act (.addOfferVector ⟨usdc, onyc, boss⟩ ⟨none, 1000, 1000000000, apr, priceFixDuration⟩)]

/-- At 10% a year in daily steps both views answer. -/
theorem views_available_sample :
    let w := run step (World.genesis (Sample.ledger Sample.issuer)) (Sample.growing 100000 86400)
    (getNav (Sample.env 2000) ⟨Sample.usdc, Sample.onyc⟩ w).map (·.currentPrice) = .ok 1000273972 ∧
      ∃ apy, getApy (Sample.env 2000) ⟨Sample.usdc, Sample.onyc⟩ w = .ok ⟨apy, 100000, 2000⟩ := by
  intro w
  obtain ⟨p, hload, hp⟩ : ∃ p, OfferView.load ⟨Sample.usdc, Sample.onyc⟩ w = .ok p ∧
      findActiveVectorAt p.1 2000 = .ok ⟨1000, 1000, 1000000000, 100000, 86400⟩ :=
    exists_ok_of_map (by decide +kernel)
  have hprice : stepPriceAt ⟨1000, 1000, 1000000000, 100000, 86400⟩ 2000 = .ok 1000273972 := by
    decide +kernel
  obtain ⟨hnav, _, hapy, _⟩ := views_available (Sample.env 2000) ⟨Sample.usdc, Sample.onyc⟩ w p _ _
    hload hp hprice
  obtain ⟨apy, _, hanswer⟩ := hapy (by decide)
  exact ⟨hnav (by decide), apy, hanswer⟩

/-- With an interval of 2^64 - 1 seconds the offer is priced but `get_nav` overflows; at 600% a
year it is priced but `get_apy` does. -/
theorem views_unavailable :
    let views := fun apr priceFixDuration =>
      let w := run step (World.genesis (Sample.ledger Sample.issuer))
        (Sample.growing apr priceFixDuration)
      ((w.offers.lookup ⟨Sample.usdc, Sample.onyc⟩).map (currentPrice (Sample.env 2000)),
        (getNav (Sample.env 2000) ⟨Sample.usdc, Sample.onyc⟩ w).map (·.currentPrice),
        (getApy (Sample.env 2000) ⟨Sample.usdc, Sample.onyc⟩ w).map (·.apy))
    views 0 18446744073709551615 =
        (some (.ok 1000000000), .error (.offerCore .overflowError), .ok 0) ∧
      views 6000000 86400 =
        (some (.ok 1016438356), .ok 1016438356, .error (.getAPY .overflow)) := by
  decide +kernel

end OnreApp.Program
