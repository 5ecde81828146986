import Mathlib.Data.List.Perm.Subperm
import OnreApp.Offers.ScheduleRefinement

/-!
# How many slots the past takes

An addition clears the slots of vectors that have been superseded twice. Right after it, at
most two of the stored vectors have started: the active one and the one before it. The
other slots are free for vectors that are still to start, so an addition runs out of slots
only when eight of these are stored.
-/
namespace OnreApp.Offers

open Library.Outcome Library.Run Library.Schedule

/-- How many stored vectors have started at `now`. -/
def startedCount (offer : Offer) (now : UInt64) : ℕ :=
  offer.slots.countP fun v => v.startTime ≠ 0 ∧ v.startTime ≤ now

/-- How many stored vectors are still to start at `now`. -/
def scheduledCount (offer : Offer) (now : UInt64) : ℕ :=
  offer.slots.countP fun v => now < v.startTime

/-- `v` is in effect at `now`, or is what was in effect just before. -/
def ActiveOrPrevious (S : Set OfferVector) (now : ℕ) (v : OfferVector) : Prop :=
  IsActive startKey S now v ∨ ∃ a, IsActive startKey S now a ∧ IsPrevious startKey S (startKey a) v

/-! ## Counting slots -/

theorem DistinctStarts.pairwise {offer : Offer} (h : DistinctStarts offer) :
    offer.slots.Pairwise fun u v => u.startTime ≠ 0 → u ≠ v := by
  rw [List.pairwise_iff_getElem]
  intro i j hi hj hij hu he
  have hsame := h i j _ _ (List.getElem?_eq_getElem hi) (List.getElem?_eq_getElem hj)
    (congrArg OfferVector.startTime he) hu
  omega

/-- Distinct vectors that are all among two take at most two slots. -/
theorem startedCount_le_two {offer : Offer} (hd : DistinctStarts offer) {now : UInt64}
    {a b : OfferVector}
    (h : ∀ v ∈ stored offer, v.startTime ≤ now → v = a ∨ v = b) : startedCount offer now ≤ 2 := by
  rw [startedCount, List.countP_eq_length_filter]
  have hnodup : (offer.slots.filter fun v => v.startTime ≠ 0 ∧ v.startTime ≤ now).Nodup := by
    refine (hd.pairwise.filter _).imp_of_mem ?_
    intro u v hu _ hne
    exact hne (of_decide_eq_true (List.mem_filter.mp hu).2).1
  have hsub : (offer.slots.filter fun v => v.startTime ≠ 0 ∧ v.startTime ≤ now) ⊆ [a, b] := by
    intro v hv
    obtain ⟨hmem, hp⟩ := List.mem_filter.mp hv
    obtain ⟨h0, hle⟩ := of_decide_eq_true hp
    rcases h v ⟨hmem, h0⟩ hle with ha | hb
    · simp [ha]
    · simp [hb]
  exact (hnodup.subperm hsub).length_le

/-- Without an empty slot, every slot has started or is still to start. -/
theorem count_of_full {offer : Offer} (h : findVectorIndexByStartTime offer 0 = none)
    (now : UInt64) : startedCount offer now + scheduledCount offer now = maxVectors := by
  have hfull : ∀ v ∈ offer.slots, v.startTime ≠ 0 := by
    intro v hv h0
    have hnone := List.findIdx?_eq_none_iff.mp h v hv
    exact of_decide_eq_false hnone h0
  have hnot : scheduledCount offer now = offer.slots.countP fun v =>
      ¬ (decide (v.startTime ≠ 0 ∧ v.startTime ≤ now) = true) := by
    apply List.countP_congr
    intro v hv
    have h0 := hfull v hv
    simp only [decide_eq_true_eq, not_and, UInt64.not_le]
    exact ⟨fun hlt _ => hlt, fun hlt => hlt h0⟩
  rw [hnot, startedCount, ← List.length_eq_countP_add_countP, Offer.length_slots]

theorem scheduledCount_clearSlots_le (offer : Offer) (p : OfferVector → Bool) (now : UInt64) :
    scheduledCount (clearSlots offer p) now ≤ scheduledCount offer now := by
  rw [scheduledCount, clearSlots, Offer.slots_mapSlots, List.countP_map]
  apply List.countP_mono_left
  intro v _ h
  simp only [Function.comp_apply, decide_eq_true_eq] at h ⊢
  split at h
  · exact absurd h (UInt64.not_lt.mpr (UInt64.zero_le))
  · exact h

theorem scheduledCount_cleanOldVectors_le {offer offer' : Offer} {newVector : OfferVector}
    {now : UInt64} (h : cleanOldVectors offer newVector now = .ok offer') (t : UInt64) :
    scheduledCount offer' t ≤ scheduledCount offer t := by
  rcases cleanOldVectors_cases h with rfl | ⟨p, rfl⟩
  · exact le_rfl
  · exact scheduledCount_clearSlots_le offer p t

/-! ## What cleaning keeps -/

/-- The clean-up around an active vector `a`: nothing from `a` on is lost, and what is left
below `a` is the last vector below it. -/
structure CleanedAround (a : OfferVector) (before after : Set OfferVector) : Prop where
  subset : after ⊆ before
  kept : ∀ v ∈ before, startKey a ≤ startKey v → v ∈ after
  last : ∀ v ∈ after, startKey v < startKey a →
    ∀ u ∈ before, startKey u < startKey a → startKey u ≤ startKey v

theorem cleanedAround_clearSlots {offer : Offer} {a : OfferVector} (ha : a.startTime ≠ 0)
    {prev : UInt64} (hprev : prev = match findActiveVectorAt offer (a.startTime - 1) with
      | .ok vector => vector.startTime
      | .error _ => 0) :
    CleanedAround a (stored offer) (stored (clearSlots offer fun v => v.startTime ≠ 0 ∧
      v.startTime ≠ a.startTime ∧ v.startTime ≠ prev ∧ v.startTime < a.startTime)) := by
  have ha' : startKey a ≠ 0 := fun h0 => ha (UInt64.toNat_inj.mp h0)
  have hpred : (a.startTime - 1).toNat = startKey a - 1 := by
    rw [UInt64.toNat_sub_of_le _ _ (UInt64.le_iff_toNat_le.mpr _)]
    · rfl
    · exact Nat.one_le_iff_ne_zero.mpr ha'
  refine ⟨fun v hv => (mem_stored_clearSlots.mp hv).1, ?_, ?_⟩
  · intro v hv hle
    refine mem_stored_clearSlots.mpr ⟨hv, decide_eq_false ?_⟩
    intro h
    exact absurd (startKey_lt.mpr h.2.2.2) (Nat.not_lt.mpr hle)
  · intro v hv hlt u hu hua
    obtain ⟨hvs, hp⟩ := mem_stored_clearSlots.mp hv
    have hlt' := startKey_lt.mp hlt
    have hvprev : v.startTime = prev := by
      by_contra hne
      exact of_decide_eq_false hp ⟨hvs.2, UInt64.ne_of_lt hlt', hne, hlt'⟩
    cases hfind : findActiveVectorAt offer (a.startTime - 1) with
    | error e =>
      rw [hfind] at hprev
      exact absurd (hvprev.trans hprev) hvs.2
    | ok p =>
      rw [hfind] at hprev
      have hvp : startKey v = startKey p := congrArg UInt64.toNat (hvprev.trans hprev)
      rw [hvp]
      apply (findActiveVectorAt_spec hfind).2.2 u hu
      omega

/-- A clean-up for an accepted vector happens around the vector that is active once it is
stored; without one, nothing has started. -/
theorem cleanOldVectors_around {offer offer' : Offer} {newVector : OfferVector} {now : UInt64}
    (hlast : ∀ v ∈ stored offer, startKey v < startKey newVector)
    (hnew : now ≤ newVector.startTime) (h : cleanOldVectors offer newVector now = .ok offer') :
    (∀ v ∈ insert newVector (stored offer'), ¬ v.startTime ≤ now) ∨
      ∃ a, IsActive startKey (insert newVector (stored offer)) now.toNat a ∧
        CleanedAround a (stored offer) (stored offer') := by
  unfold cleanOldVectors at h
  by_cases hstart : newVector.startTime = now
  · simp only [if_pos hstart, bind_eq_ok, require_eq_ok, pure_eq_ok] at h
    obtain ⟨_, h0, rfl⟩ := h
    refine .inr ⟨newVector, ⟨⟨.inl rfl, (congrArg UInt64.toNat hstart).le⟩, ?_⟩,
      cleanedAround_clearSlots h0 rfl⟩
    intro u hu _
    rcases hu with rfl | hu
    · exact le_rfl
    · exact (hlast u hu).le
  · have hlater : ¬ newVector.startTime ≤ now := fun hle =>
      hstart (UInt64.le_antisymm hle hnew)
    simp only [if_neg hstart] at h
    cases hfind : findActiveVectorAt offer now with
    | error e =>
      rw [hfind] at h
      rw [← Except.ok.inj h]
      refine .inl fun v hv hle => ?_
      rcases hv with rfl | hv
      · exact hlater hle
      · exact (findActiveVectorAt_eq_error hfind).2 v hv (startKey_le.mpr hle)
    | ok a =>
      rw [hfind] at h
      simp only [bind_eq_ok, require_eq_ok, pure_eq_ok] at h
      obtain ⟨_, h0, rfl⟩ := h
      obtain ⟨hs, ht, hmax⟩ := findActiveVectorAt_spec hfind
      refine .inr ⟨a, ⟨⟨.inr hs, ht⟩, ?_⟩, cleanedAround_clearSlots h0 rfl⟩
      intro u hu hut
      rcases hu with rfl | hu
      · exact absurd (startKey_le.mp hut) hlater
      · exact hmax u hu hut

/-- What is left of the started vectors is in effect with the new vector, or was before. -/
theorem CleanedAround.activeOrPrevious {a newVector : OfferVector} {before after : Set OfferVector}
    {now : ℕ} (h : CleanedAround a before after)
    (hinj : Set.InjOn startKey (insert newVector before))
    (hlast : ∀ v ∈ before, startKey v < startKey newVector)
    (ha : IsActive startKey (insert newVector before) now a) {v : OfferVector}
    (hv : v ∈ insert newVector after) (hle : startKey v ≤ now) :
    ActiveOrPrevious (insert newVector after) now v := by
  have hsub : insert newVector after ⊆ insert newVector before := Set.insert_subset_insert h.subset
  have hactive : IsActive startKey (insert newVector after) now a := by
    refine ⟨⟨?_, ha.1.2⟩, fun u hu hut => ha.2 u (hsub hu) hut⟩
    rcases ha.1.1 with he | hs
    · exact .inl he
    · exact .inr (h.kept a hs le_rfl)
  by_cases hva : v = a
  · exact .inl (hva ▸ hactive)
  · have hlt : startKey v < startKey a := by
      apply lt_of_le_of_ne (hactive.2 v hv hle)
      intro he
      exact hva (hinj (hsub hv) ha.1.1 he)
    -- Below the active vector the new one does not occur.
    have hstored : ∀ {S : Set OfferVector} {u : OfferVector}, u ∈ insert newVector S →
        startKey u < startKey a → u ∈ S := by
      intro S u hu hua
      rcases hu with rfl | hu
      · rcases ha.1.1 with rfl | has
        · exact absurd hua (lt_irrefl _)
        · exact absurd (hlast a has) (Nat.not_lt.mpr hua.le)
      · exact hu
    refine .inr ⟨a, hactive, ⟨hv, hlt⟩, fun u hu hua => ?_⟩
    exact h.last v (hstored hv hlt) hlt u (hstored (hsub hu) hua) hua

/-! ## Additions -/

/-- What holds of at most one vector holds of none but some `a`. -/
theorem exists_of_unique {P : OfferVector → Prop} (h : ∀ u v, P u → P v → u = v) :
    ∃ a, ∀ v, P v → v = a := by
  by_cases hsome : ∃ a, P a
  · obtain ⟨a, ha⟩ := hsome
    exact ⟨a, fun v hv => h v a hv ha⟩
  · exact ⟨OfferVector.default, fun v hv => absurd ⟨v, hv⟩ hsome⟩

/-- The active vector and the one before it are two vectors at most. -/
theorem startedCount_le_two_of_activeOrPrevious {offer : Offer} (hd : DistinctStarts offer)
    {now : UInt64} {S : Set OfferVector} (hinj : Set.InjOn startKey S)
    (h : ∀ v ∈ stored offer, v.startTime ≤ now → ActiveOrPrevious S now.toNat v) :
    startedCount offer now ≤ 2 := by
  obtain ⟨a, ha⟩ : ∃ a, ∀ v, IsActive startKey S now.toNat v → v = a :=
    exists_of_unique fun u v hu hv => hu.unique hinj hv
  obtain ⟨p, hp⟩ : ∃ p, ∀ v, (∃ a, IsActive startKey S now.toNat a ∧
      IsPrevious startKey S (startKey a) v) → v = p := by
    apply exists_of_unique
    intro u v hu hv
    obtain ⟨b, hb, hub⟩ := hu
    obtain ⟨c, hc, hvc⟩ := hv
    rw [← hb.unique hinj hc] at hvc
    exact hub.unique hinj hvc
  exact startedCount_le_two hd fun v hv hle => (h v hv hle).imp (ha v) (hp v)

section Additions

variable {offer offer' : Offer} {now : UInt64} {args : AddOfferVectorArgs}

theorem DistinctStarts.injOn_insert {newVector : OfferVector} (hd : DistinctStarts offer)
    (hlast : ∀ v ∈ stored offer, startKey v < startKey newVector) :
    Set.InjOn startKey (insert newVector (stored offer)) := by
  intro u hu w hw huw
  rcases hu with rfl | hu <;> rcases hw with rfl | hw
  · rfl
  · exact absurd huw (hlast w hw).ne'
  · exact absurd huw (hlast u hu).ne
  · exact hd.injOn hu hw huw

/-- Of what the clean-up keeps, the new vector counted, everything that has started is the
active vector or the one before it. -/
theorem cleanOldVectors_activeOrPrevious {newVector : OfferVector} (hd : DistinctStarts offer)
    (hlast : ∀ v ∈ stored offer, startKey v < startKey newVector)
    (hnew : now ≤ newVector.startTime) (h : cleanOldVectors offer newVector now = .ok offer')
    {v : OfferVector} (hv : v ∈ insert newVector (stored offer')) (hle : v.startTime ≤ now) :
    ActiveOrPrevious (insert newVector (stored offer')) now.toNat v := by
  rcases cleanOldVectors_around hlast hnew h with hnone | ⟨a, ha, haround⟩
  · exact absurd hle (hnone v hv)
  · exact haround.activeOrPrevious (hd.injOn_insert hlast) hlast ha hv (startKey_le.mpr hle)

theorem addVector_started (hd : DistinctStarts offer) (hnow : 0 < now)
    (h : addVector now args offer = .ok offer') :
    startedCount offer' now ≤ 2 ∧
      ∀ v ∈ stored offer', v.startTime ≤ now → ActiveOrPrevious (stored offer') now.toNat v := by
  have hd' := (addVector_spec hd (UInt64.lt_iff_toNat_lt.mp hnow) h).1
  simp only [addVector, bind_eq_ok, okOr_eq_ok, pure_eq_ok, validateInputs_eq_ok] at h
  obtain ⟨_, ⟨hstart, _, _, _, hlast⟩, cleaned, hclean, i, hi, rfl⟩ := h
  obtain ⟨old, hold, hempty⟩ := findVectorIndexByStartTime_spec hi
  have hne : (args.newVector now).startTime ≠ 0 := by
    intro h0
    rw [h0] at hstart
    exact UInt64.not_lt.mpr hstart hnow
  have hstored := stored_fill hold hempty hne
  have hstarted : ∀ v ∈ stored (cleaned.setSlot i (args.newVector now)), v.startTime ≤ now →
      ActiveOrPrevious (stored (cleaned.setSlot i (args.newVector now))) now.toNat v := by
    rw [hstored]
    intro v hv hle
    exact cleanOldVectors_activeOrPrevious hd (fun u hu => startKey_lt.mpr (hlast u hu)) hstart
      hclean hv hle
  exact ⟨startedCount_le_two_of_activeOrPrevious hd' hd'.injOn hstarted, hstarted⟩

theorem cleanOldVectors_avoids_tooManyVectors {newVector : OfferVector} :
    Avoids (.addOfferVector .tooManyVectors) (cleanOldVectors offer newVector now) := by
  unfold cleanOldVectors
  dsimp only
  split
  · exact avoids_ok _ _
  · exact avoids_bind (avoids_require _ (by decide)) fun _ _ => avoids_pure _ _

/-- An addition out of slots passed the checks and found every slot taken after the
clean-up. -/
theorem addVector_tooManyVectors
    (h : addVector now args offer = .error (.addOfferVector .tooManyVectors)) :
    now ≤ (args.newVector now).startTime ∧
      (∀ v ∈ stored offer, v.startTime < (args.newVector now).startTime) ∧
      ∃ cleaned, cleanOldVectors offer (args.newVector now) now = .ok cleaned ∧
        findVectorIndexByStartTime cleaned 0 = none := by
  simp only [addVector, bind_eq_error] at h
  rcases h with hv | ⟨_, hv, hc | ⟨cleaned, hc, hs | ⟨_, _, hp⟩⟩⟩
  · exact absurd hv (validateInputs_avoids fun c hc he => hc (Error.addOfferVector.inj he))
  · exact absurd hc cleanOldVectors_avoids_tooManyVectors
  · obtain ⟨hstart, _, _, _, hlast⟩ := validateInputs_eq_ok.mp hv
    exact ⟨hstart, hlast, cleaned, hc, ((okOr_eq_error _ _ _).mp hs).1⟩
  · exact absurd hp (pure_ne_error _ _)

/-- Of ten full slots at most two have started, so eight vectors are still to start; none of
them could be where the new vector starts at once. -/
theorem eight_scheduled_of_tooManyVectors (hd : DistinctStarts offer)
    (h : addVector now args offer = .error (.addOfferVector .tooManyVectors)) :
    now < (args.newVector now).startTime ∧ 8 ≤ scheduledCount offer now := by
  obtain ⟨hstart, hlast, cleaned, hclean, hfull⟩ := addVector_tooManyVectors h
  have hkeys : ∀ v ∈ stored offer, startKey v < startKey (args.newVector now) := fun v hv =>
    startKey_lt.mpr (hlast v hv)
  obtain ⟨hd', hsub, _⟩ := cleanOldVectors_spec hd hclean
  have hinj := hd'.injOn_insert fun v hv => hkeys v (hsub hv)
  have htwo : startedCount cleaned now ≤ 2 :=
    startedCount_le_two_of_activeOrPrevious hd' hinj fun v hv hle =>
      cleanOldVectors_activeOrPrevious hd hkeys hstart hclean (.inr hv) hle
  have hsum : startedCount cleaned now + scheduledCount cleaned now = 10 := count_of_full hfull now
  have hmono := scheduledCount_cleanOldVectors_le hclean now
  have height : 8 ≤ scheduledCount offer now := by omega
  refine ⟨?_, height⟩
  by_contra hnot
  have hnone : scheduledCount offer now = 0 := by
    rw [scheduledCount, List.countP_eq_zero]
    intro v hv hlt
    have hlater : now < v.startTime := of_decide_eq_true hlt
    have h0 : v.startTime ≠ 0 := fun h0 => UInt64.not_lt_zero (h0 ▸ hlater)
    exact hnot (UInt64.lt_trans hlater (hlast v ⟨hv, h0⟩))
  omega

end Additions

/-- On every offer reached by vector edits at a positive clock that does not go back: an
addition leaves at most two vectors that have started, the active one and the one before
it; and it runs out of slots only where it starts later and eight stored vectors are still
to start. -/
theorem vector_capacity (tokenInMint tokenOutMint : Pubkey) (fee : UInt16)
    (needsApproval permissionless : Bool) (actions : List VectorAction) (now : UInt64)
    (args : AddOfferVectorArgs) (hclock : ClockForward (actions ++ [⟨now, .add args⟩])) :
    let offer := run editVectors
      (newOffer tokenInMint tokenOutMint fee needsApproval permissionless) actions
    (∀ offer', addVector now args offer = .ok offer' →
      startedCount offer' now ≤ 2 ∧ ∀ v ∈ stored offer', v.startTime ≤ now →
        ActiveOrPrevious (stored offer') now.toNat v) ∧
      (addVector now args offer = .error (.addOfferVector .tooManyVectors) →
        now < (args.newVector now).startTime ∧ 8 ≤ scheduledCount offer now) ∧
      ((args.newVector now).startTime = now →
        addVector now args offer ≠ .error (.addOfferVector .tooManyVectors)) := by
  intro offer
  have hsplit := List.pairwise_append.mp hclock.monotone
  have hpos : 0 < now := hclock.positive ⟨now, .add args⟩ (by simp)
  have hrefines : Refines now.toNat (run editBoth
      (newOffer tokenInMint tokenOutMint fee needsApproval permissionless, ∅) actions) :=
    .run (distinctStarts_newOffer _ _ _ _ _) (stored_newOffer _ _ _ _ _) actions
      ⟨fun a ha => hclock.positive a (by simp [ha]), hsplit.1⟩ fun a ha =>
        hsplit.2.2 a ha ⟨now, .add args⟩ (by simp)
  have hd : DistinctStarts offer := by
    have hdistinct := hrefines.distinct
    rw [run_editBoth_fst] at hdistinct
    exact hdistinct
  refine ⟨fun offer' h => addVector_started hd hpos h, eight_scheduled_of_tooManyVectors hd, ?_⟩
  intro hnow h
  have hlater := (eight_scheduled_of_tooManyVectors hd h).1
  rw [hnow] at hlater
  exact UInt64.lt_irrefl _ hlater

/-- Ten vectors scheduled, the first two of them started: an addition finds no slot, and the
other eight are still to start. -/
theorem vector_capacity_full :
    let actions := (List.range 10).map fun i =>
      (⟨20, .add ⟨some (UInt64.ofNat (30 + 10 * i)), 10, 1000, 0, 5⟩⟩ : VectorAction)
    let offer := run editVectors (newOffer ⟨1⟩ ⟨2⟩ 0 false false) actions
    addVector 45 ⟨some 200, 10, 1000, 0, 5⟩ offer = .error (.addOfferVector .tooManyVectors) ∧
      8 ≤ scheduledCount offer 45 := by
  intro actions offer
  have hclock : ClockForward (actions ++ [⟨45, .add ⟨some 200, 10, 1000, 0, 5⟩⟩]) :=
    ⟨by decide, by decide⟩
  have hfull : addVector 45 ⟨some 200, 10, 1000, 0, 5⟩ offer =
      .error (.addOfferVector .tooManyVectors) :=
    eq_error_of_map (f := fun _ => ()) (by decide +kernel)
  exact ⟨hfull, ((vector_capacity ⟨1⟩ ⟨2⟩ 0 false false actions 45 _ hclock).2.1 hfull).2⟩

end OnreApp.Offers
