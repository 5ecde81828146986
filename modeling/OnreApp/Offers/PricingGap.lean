import OnreApp.Offers.ScheduleRefinement

/-!
# Vectors that become active before they have a price

A vector is active from its start time on and has a price from its base time on. By default
it starts at its base time or later; an explicit start time is taken as it is.
-/
namespace OnreApp.Offers

open Library.Outcome Library.Run Library.Search

/-- The vector has a price whenever it is active. -/
def WellTimed (v : OfferVector) : Prop := v.baseTime ≤ v.startTime

/-- An explicit start time, if there is one, is not before the base time. -/
def AddOfferVectorArgs.StartsInTime (args : AddOfferVectorArgs) : Prop :=
  ∀ t ∈ args.startTime, args.baseTime ≤ t

instance (args : AddOfferVectorArgs) : Decidable args.StartsInTime :=
  match h : args.startTime with
  | none => isTrue fun t ht => by rw [h] at ht; cases ht
  | some t => decidable_of_iff (args.baseTime ≤ t)
    ⟨fun hle u hu => Option.some.inj (h.symm.trans hu) ▸ hle, fun hall => hall t h⟩

theorem le_max_baseTime (now base : UInt64) : base ≤ max now base := by
  show base ≤ if now ≤ base then base else now
  split
  · exact UInt64.le_refl base
  · next h => exact UInt64.le_of_lt (UInt64.not_le.mp h)

theorem wellTimed_newVector {args : AddOfferVectorArgs} {now : UInt64} :
    WellTimed (args.newVector now) ↔ args.StartsInTime := by
  obtain ⟨start, base, price, apr, duration⟩ := args
  unfold WellTimed AddOfferVectorArgs.StartsInTime
  cases start with
  | none =>
    show base ≤ max now base ↔ _
    exact iff_of_true (le_max_baseTime now base) fun t ht => nomatch ht
  | some t =>
    show base ≤ t ↔ _
    simp

theorem addVector_stored {now : UInt64} {args : AddOfferVectorArgs} {offer offer' : Offer}
    (h : addVector now args offer = .ok offer') :
    stored offer' ⊆ insert (args.newVector now) (stored offer) := by
  simp only [addVector, bind_eq_ok, okOr_eq_ok, pure_eq_ok] at h
  obtain ⟨_, _, cleaned, hclean, i, _, rfl⟩ := h
  refine stored_setSlot_subset.trans (Set.insert_subset_insert ?_)
  rcases cleanOldVectors_cases hclean with rfl | ⟨p, rfl⟩
  · exact subset_rfl
  · intro v hv
    exact (mem_stored_clearSlots.mp hv).1

/-- An edit stores no vector but the one it adds. -/
theorem editVectors_stored {a : VectorAction} {offer offer' : Offer}
    (h : editVectors a offer = .ok offer') {v : OfferVector} (hv : v ∈ stored offer') :
    v ∈ stored offer ∨ ∃ args, a.instruction = .add args ∧ v = args.newVector a.now := by
  obtain ⟨now, instruction⟩ := a
  cases instruction with
  | add args =>
    rcases addVector_stored h hv with he | hs
    · exact .inr ⟨args, rfl, he⟩
    · exact .inl hs
  | delete t =>
    simp only [editVectors, deleteVector, bind_eq_ok, pure_eq_ok] at h
    obtain ⟨_, _, i, _, rfl⟩ := h
    rcases stored_setSlot_subset hv with he | hs
    · exact absurd (congrArg OfferVector.startTime he) hv.2
    · exact .inl hs
  | deleteAll =>
    cases Except.ok.inj h
    rw [stored_deleteAllVectors] at hv
    exact absurd hv (Set.notMem_empty v)

theorem editVectors_distinct {a : VectorAction} {offer offer' : Offer} (hd : DistinctStarts offer)
    (hnow : 0 < a.now.toNat) (h : editVectors a offer = .ok offer') : DistinctStarts offer' := by
  obtain ⟨now, instruction⟩ := a
  cases instruction with
  | add args => exact (addVector_spec hd hnow h).1
  | delete t => exact (deleteVector_spec hd h).1
  | deleteAll =>
    cases Except.ok.inj h
    exact hd.clearSlots _

/-- Every vector an offer stores has a price whenever it is active. -/
def AllWellTimed (offer : Offer) : Prop := ∀ v ∈ stored offer, WellTimed v

theorem allWellTimed_newOffer (tokenInMint tokenOutMint : Pubkey) (fee : UInt16)
    (needsApproval permissionless : Bool) :
    AllWellTimed (newOffer tokenInMint tokenOutMint fee needsApproval permissionless) := by
  intro v hv
  rw [stored_newOffer] at hv
  exact absurd hv (Set.notMem_empty v)

theorem AllWellTimed.edit {a : VectorAction} {offer offer' : Offer} (h : AllWellTimed offer)
    (ha : ∀ args, a.instruction = .add args → args.StartsInTime)
    (he : editVectors a offer = .ok offer') : AllWellTimed offer' := by
  intro v hv
  rcases editVectors_stored he hv with hs | ⟨args, hargs, rfl⟩
  · exact h v hs
  · exact wellTimed_newVector.mpr (ha args hargs)

/-- At its own start time a new vector is the active one. -/
theorem newVector_active {offer offer' : Offer} {args : AddOfferVectorArgs} {now : UInt64}
    (hd : DistinctStarts offer) (hnow : 0 < now.toNat) (h : addVector now args offer = .ok offer') :
    findActiveVectorAt offer' (args.newVector now).startTime = .ok (args.newVector now) := by
  obtain ⟨_, _, hlast, _, _, _, hmem, _⟩ := addVector_spec hd hnow h
  cases hf : findActiveVectorAt offer' (args.newVector now).startTime with
  | error e => exact absurd le_rfl ((findActiveVectorAt_eq_error hf).2 _ hmem)
  | ok v =>
    obtain ⟨hv, hle, hmax⟩ := findActiveVectorAt_spec hf
    have hge := hmax _ hmem le_rfl
    rcases addVector_stored h hv with he | hs
    · rw [he]
    · exact absurd (hlast v hs) (Nat.not_lt.mpr hge)

/-! ## Prices of well-timed vectors -/

section Prices

variable {offer : Offer} (h : AllWellTimed offer) {t : UInt64} {v : OfferVector}
include h

theorem AllWellTimed.active (hv : findActiveVectorAt offer t = .ok v) : v.baseTime ≤ t := by
  obtain ⟨hs, ht, _⟩ := findActiveVectorAt_spec hv
  exact UInt64.le_trans (h v hs) (startKey_le.mp ht)

/-- The active vector has a price, now and at its own start. -/
theorem AllWellTimed.price (hv : findActiveVectorAt offer t = .ok v) :
    Avoids (.offerCore .noActiveVector) (stepPriceAt v t) :=
  stepPriceAt_avoids nofun nofun (.inl (h.active hv))

theorem AllWellTimed.startPrice (hv : findActiveVectorAt offer t = .ok v) :
    Avoids (.offerCore .noActiveVector) (stepPriceAt v v.startTime) :=
  stepPriceAt_avoids nofun nofun (.inl (h v (findActiveVectorAt_spec hv).1))

/-- The vector before it has one too, at the moment it was replaced. -/
theorem AllWellTimed.previousPrice {u : OfferVector}
    (hu : findPreviousVector offer v.startTime = some u) :
    Avoids (.offerCore .noActiveVector) (stepPriceAt u v.startTime) := by
  obtain ⟨hmem, _⟩ := maxByKey_spec hu
  obtain ⟨hs, hlt⟩ := (mem_previous_slots u).mp hmem
  have hle : u.startTime ≤ v.startTime := UInt64.le_of_lt (startKey_lt.mp hlt)
  exact stepPriceAt_avoids nofun nofun (.inl (UInt64.le_trans (h u hs) hle))

end Prices

end OnreApp.Offers
