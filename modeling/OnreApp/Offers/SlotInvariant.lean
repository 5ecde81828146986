import OnreApp.Offers.PricedVectors

/-!
# The representation invariant of the vector array

A slot is empty exactly if its start time is zero, and then all of it is zero. Any other slot
holds a vector that can be priced, and no two of them start at the same time. Additions,
evictions and deletions keep this, in any order, as long as the clock is past zero.
-/
namespace OnreApp.Offers

open Library.Outcome

structure WellFormed (offer : Offer) : Prop where
  slots : ∀ v ∈ offer.slots, v = OfferVector.default ∨ (0 < v.startTime ∧ Priced v)
  distinct : DistinctStarts offer

theorem wellFormed_newOffer (tokenInMint tokenOutMint : Pubkey) (fee : UInt16)
    (needsApproval permissionless : Bool) :
    WellFormed (newOffer tokenInMint tokenOutMint fee needsApproval permissionless) where
  slots v hv := by
    rw [slots_newOffer] at hv
    exact .inl (List.eq_of_mem_replicate hv)
  distinct := distinctStarts_newOffer _ _ _ _ _

section Edits

variable {offer offer' : Offer} (h : WellFormed offer)
include h

/-- What an offer stores can be priced. -/
theorem WellFormed.priced {v : OfferVector} (hv : v ∈ stored offer) : Priced v := by
  rcases h.slots v hv.1 with he | hp
  · exact absurd (congrArg OfferVector.startTime he) hv.2
  · exact hp.2

theorem WellFormed.clearSlots (p : OfferVector → Bool) : WellFormed (clearSlots offer p) where
  slots v hv := by
    rw [Offers.clearSlots, Offer.slots_mapSlots, List.mem_map] at hv
    obtain ⟨u, hu, rfl⟩ := hv
    split
    · exact .inl rfl
    · exact h.slots u hu
  distinct := h.distinct.clearSlots p

theorem WellFormed.cleanOldVectors {newVector : OfferVector} {now : UInt64}
    (hclean : cleanOldVectors offer newVector now = .ok offer') : WellFormed offer' := by
  rcases cleanOldVectors_cases hclean with rfl | ⟨p, rfl⟩
  · exact h
  · exact h.clearSlots p

theorem WellFormed.addVector {now : UInt64} {args : AddOfferVectorArgs} (hnow : 0 < now)
    (he : addVector now args offer = .ok offer') : WellFormed offer' := by
  have hspec := addVector_spec h.distinct (UInt64.lt_iff_toNat_lt.mp hnow) he
  have hpriced := addVector_priced he
  simp only [Offers.addVector, bind_eq_ok, pure_eq_ok, validateInputs_eq_ok] at he
  obtain ⟨_, ⟨hstart, _⟩, cleaned, hclean, i, _, rfl⟩ := he
  refine ⟨fun v hv => ?_, hspec.1⟩
  rcases List.mem_or_eq_of_mem_set hv with hold | rfl
  · exact (h.cleanOldVectors hclean).slots v hold
  · exact .inr ⟨UInt64.lt_of_lt_of_le hnow hstart, hpriced⟩

theorem WellFormed.deleteVector {now t : UInt64} (he : deleteVector now t offer = .ok offer') :
    WellFormed offer' := by
  have hspec := deleteVector_spec h.distinct he
  simp only [Offers.deleteVector, bind_eq_ok, pure_eq_ok] at he
  obtain ⟨_, _, i, _, rfl⟩ := he
  refine ⟨fun v hv => ?_, hspec.1⟩
  rcases List.mem_or_eq_of_mem_set hv with hold | rfl
  · exact h.slots v hold
  · exact .inl rfl

theorem WellFormed.edit {a : VectorAction} (hnow : 0 < a.now)
    (he : editVectors a offer = .ok offer') : WellFormed offer' := by
  obtain ⟨now, instruction⟩ := a
  cases instruction with
  | add args => exact h.addVector hnow he
  | delete t => exact h.deleteVector he
  | deleteAll =>
    cases Except.ok.inj he
    exact h.clearSlots _

end Edits

/-! ## The subtraction of the cleaning -/

/-- A vector found by the search starts after zero, and so does a new one past a clock of
zero. -/
theorem cleanOldVectors_no_panic {offer : Offer} {newVector : OfferVector} {now : UInt64}
    (hnew : newVector.startTime ≠ 0) : Avoids .panic (cleanOldVectors offer newVector now) := by
  have hactive : ∀ a, (if newVector.startTime = now then (.ok newVector : Except Error _)
      else findActiveVectorAt offer now) = .ok a → a.startTime ≠ 0 := by
    intro a ha
    split at ha
    · exact Except.ok.inj ha ▸ hnew
    · exact (findActiveVectorAt_spec ha).1.2
  unfold cleanOldVectors
  dsimp only
  split
  · exact avoids_ok _ _
  · next a ha =>
    refine avoids_bind ?_ fun _ _ => avoids_pure _ _
    intro hpanic
    exact ((require_eq_error _ _ _).mp hpanic).1 (hactive a ha)

theorem addVector_no_panic {offer : Offer} {args : AddOfferVectorArgs} {now : UInt64}
    (hnow : 0 < now) : Avoids .panic (addVector now args offer) := by
  refine avoids_bind (validateInputs_avoids fun _ _ => nofun) fun _ hvalid => ?_
  have hstart := UInt64.lt_of_lt_of_le hnow (validateInputs_eq_ok.mp hvalid).1
  refine avoids_bind (cleanOldVectors_no_panic ?_) fun _ _ => ?_
  · intro hzero
    rw [hzero] at hstart
    exact UInt64.lt_irrefl 0 hstart
  · exact avoids_bind (avoids_okOr _ nofun) fun _ _ => avoids_pure _ _

theorem deleteVector_no_panic (offer : Offer) (now t : UInt64) :
    Avoids .panic (deleteVector now t offer) := by
  refine avoids_bind (avoids_require _ nofun) fun _ _ => ?_
  exact avoids_bind (avoids_okOr _ nofun) fun _ _ => avoids_pure _ _

end OnreApp.Offers
