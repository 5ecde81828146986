import OnreApp.Offers.PricingGap
import OnreApp.Offers.StepPrice

/-!
# Vectors that can be priced

A vector is stored with a base time, a base price and a duration that are positive. Pricing it
then never panics, at any time, and succeeds exactly where the price is defined and fits.
-/
namespace OnreApp.Offers

open Library.Checked Library.Intervals Library.Outcome

/-- What an addition demands of a vector besides its place in time. -/
structure Priced (v : OfferVector) : Prop where
  baseTime_pos : 0 < v.baseTime
  basePrice_pos : 0 < v.basePrice
  duration_pos : 0 < v.priceFixDuration

def AllPriced (offer : Offer) : Prop := ∀ v ∈ stored offer, Priced v

theorem allPriced_newOffer (tokenInMint tokenOutMint : Pubkey) (fee : UInt16)
    (needsApproval permissionless : Bool) :
    AllPriced (newOffer tokenInMint tokenOutMint fee needsApproval permissionless) := by
  intro v hv
  rw [stored_newOffer] at hv
  exact absurd hv (Set.notMem_empty v)

theorem addVector_priced {now : UInt64} {args : AddOfferVectorArgs} {offer offer' : Offer}
    (h : addVector now args offer = .ok offer') : Priced (args.newVector now) := by
  simp only [addVector, bind_eq_ok, validateInputs_eq_ok] at h
  obtain ⟨_, ⟨_, hbase, hprice, hduration, _⟩, _⟩ := h
  exact ⟨hbase, hprice, hduration⟩

theorem AllPriced.edit {a : VectorAction} {offer offer' : Offer} (h : AllPriced offer)
    (he : editVectors a offer = .ok offer') : AllPriced offer' := by
  intro v hv
  rcases editVectors_stored he hv with hs | ⟨args, hargs, rfl⟩
  · exact h v hs
  · obtain ⟨now, instruction⟩ := a
    obtain rfl : instruction = .add args := hargs
    exact addVector_priced he

/-- The exact price of a vector at `t`, where it has one that fits. -/
def priceAt (v : OfferVector) (t : UInt64) : Option ℕ :=
  let price := stepPrice v.apr.toNat v.basePrice.toNat v.baseTime.toNat v.priceFixDuration.toNat
    t.toNat
  if v.baseTime ≤ t ∧
      intervalEnd v.priceFixDuration.toNat (t.toNat - v.baseTime.toNat) < 2 ^ 64 ∧ price < 2 ^ 64
    then some price else none

section Prices

variable {v : OfferVector} (hv : Priced v) {t : UInt64}
include hv

theorem Priced.stepPriceAt_eq_ok {price : UInt64} :
    stepPriceAt v t = .ok price ↔ priceAt v t = some price.toNat := by
  unfold priceAt
  constructor
  · intro h
    have hexact := calculateStepPriceAt_ok h
    simp only [stepPriceAt, calculateStepPriceAt, bind_eq_ok, require_eq_ok, okOr_eq_ok,
      checkedMul_eq_some, checkedAdd_eq_some] at h
    obtain ⟨_, hbase, _, _, _, ⟨_, rfl⟩, _, ⟨hend, _⟩, _⟩ := h
    rw [← hexact, if_pos ⟨hbase, hend, price.toNat_lt⟩]
  · intro h
    obtain ⟨⟨hbase, hend, hfits⟩, hexact⟩ := Option.ite_none_right_eq_some.mp h
    rw [stepPriceAt, calculateStepPriceAt_eq_vectorPrice hv.duration_pos hbase hend,
      calculateVectorPrice_eq, toNat_ofNat_of_lt hend]
    rw [stepPrice_eq] at hfits hexact
    rw [if_pos hfits, Option.some.inj hexact, UInt64.ofNat_toNat]

theorem Priced.priceAt_eq : priceAt v t = (stepPriceAt v t).toOption.map UInt64.toNat := by
  cases h : stepPriceAt v t with
  | ok price => exact hv.stepPriceAt_eq_ok.mp h
  | error e =>
    refine Option.eq_none_iff_forall_ne_some.mpr fun n hn => ?_
    obtain ⟨⟨_, _, hfits⟩, he⟩ := Option.ite_none_right_eq_some.mp hn
    rw [Option.some.inj he] at hfits
    rw [← toNat_ofNat_of_lt hfits, ← hv.stepPriceAt_eq_ok, h] at hn
    cases hn

theorem Priced.duration_ne : v.priceFixDuration ≠ 0 := by
  intro hzero
  have hpos := UInt64.lt_iff_toNat_lt.mp hv.duration_pos
  rw [hzero] at hpos
  exact Nat.lt_irrefl 0 hpos

/-- The number of an interval fits: a clock is less than one range after the base time. -/
theorem Priced.nextStep_lt :
    (t.toNat - v.baseTime.toNat) / v.priceFixDuration.toNat + 1 < 2 ^ 64 := by
  have hbase := UInt64.lt_iff_toNat_lt.mp hv.baseTime_pos
  have ht := t.toNat_lt
  have hle := Nat.div_le_self (t.toNat - v.baseTime.toNat) v.priceFixDuration.toNat
  omega

theorem Priced.duration_avoids {e : Error} :
    Avoids e (require (v.priceFixDuration ≠ 0) .panic) := by
  intro h
  exact ((require_eq_error _ _ _).mp h).1 hv.duration_ne

theorem Priced.nextStep_avoids {e : Error} : Avoids e (okOr (checkedAdd 64
    ((t.toNat - v.baseTime.toNat) / v.priceFixDuration.toNat) 1) .panic) :=
  avoids_okOr_of_some (checkedAdd_eq_some.mpr ⟨hv.nextStep_lt, rfl⟩) _ _

theorem Priced.stepPriceAt_no_panic : Avoids .panic (stepPriceAt v t) := by
  refine avoids_bind (avoids_require _ nofun) fun _ _ => ?_
  refine avoids_bind hv.duration_avoids fun _ _ => ?_
  refine avoids_bind hv.nextStep_avoids fun _ _ => ?_
  refine avoids_bind (avoids_okOr _ nofun) fun _ _ => ?_
  rw [Avoids, calculateVectorPrice_eq]
  split
  · exact avoids_ok _ _
  · exact avoids_error nofun

end Prices

end OnreApp.Offers
