import OnreApp.Library.Run
import OnreApp.Offers.MakeOffer

/-!
# Ten slots stand for an unbounded schedule

The ideal schedule of an offer holds every vector that was added and not deleted. The slots
forget old vectors to make room; no search from the present on can tell the difference.
-/
namespace OnreApp.Offers

open Library.Outcome Library.Run Library.Schedule Library.Search

/-- The instructions that edit an offer's slots, with their arguments. -/
inductive VectorInstruction
  | add (args : AddOfferVectorArgs)
  | delete (vectorStartTime : UInt64)
  | deleteAll

/-- One of them, executed when the clock shows `now`. -/
structure VectorAction where
  now : UInt64
  instruction : VectorInstruction

def editVectors (a : VectorAction) (offer : Offer) : Except Error Offer :=
  match a.instruction with
  | .add args => addVector a.now args offer
  | .delete t => deleteVector a.now t offer
  | .deleteAll => .ok (deleteAllVectors offer)

/-- An edit leaves everything but the slots. -/
theorem editVectors_terms {a : VectorAction} {offer offer' : Offer}
    (h : editVectors a offer = .ok offer') : offer' = { offer with vectors := offer'.vectors } := by
  obtain ⟨now, instruction⟩ := a
  cases instruction with
  | add args =>
    simp only [editVectors, addVector, bind_eq_ok, pure_eq_ok] at h
    obtain ⟨_, _, cleaned, hclean, i, _, rfl⟩ := h
    rcases cleanOldVectors_cases hclean with rfl | ⟨p, rfl⟩
    · rfl
    · rfl
  | delete t =>
    simp only [editVectors, deleteVector, bind_eq_ok, pure_eq_ok] at h
    obtain ⟨_, _, i, _, rfl⟩ := h
    rfl
  | deleteAll =>
    cases h
    rfl

/-- What a successful edit does to the ideal schedule. -/
def editSchedule (a : VectorAction) (ideal : Set OfferVector) : Set OfferVector :=
  match a.instruction with
  | .add args => insert (args.newVector a.now) ideal
  | .delete t => {v ∈ ideal | v.startTime ≠ t}
  | .deleteAll => ∅

/-- The slots and the ideal schedule side by side. -/
def editBoth (a : VectorAction) (s : Offer × Set OfferVector) :
    Except Error (Offer × Set OfferVector) := do
  let offer ← editVectors a s.1
  pure (offer, editSchedule a s.2)

/-- The ideal schedule after a run of edits from an offer without vectors. -/
def idealSchedule (offer : Offer) (actions : List VectorAction) : Set OfferVector :=
  (run editBoth (offer, ∅) actions).2

/-- The clock of a run is positive and never goes back. -/
structure ClockForward (actions : List VectorAction) : Prop where
  positive : ∀ a ∈ actions, 0 < a.now
  monotone : actions.Pairwise fun a b => a.now ≤ b.now

theorem exec_editBoth_fst (a : VectorAction) (s : Offer × Set OfferVector) :
    (exec editBoth s a).1 = exec editVectors s.1 a := by
  cases h : editVectors a s.1 with
  | error e =>
    have hboth : editBoth a s = .error e := by rw [editBoth, h]; rfl
    rw [exec_error h, exec_error hboth]
  | ok o =>
    have hboth : editBoth a s = .ok (o, editSchedule a s.2) := by rw [editBoth, h]; rfl
    rw [exec_ok h, exec_ok hboth]

/-- Keeping the ideal schedule beside the slots does not change the slots. -/
theorem run_editBoth_fst (actions : List VectorAction) (s : Offer × Set OfferVector) :
    (run editBoth s actions).1 = run editVectors s.1 actions := by
  induction actions generalizing s with
  | nil => rfl
  | cons a as ih => rw [run_cons, run_cons, ih, exec_editBoth_fst]

/-- The slots retain the ideal schedule from `now` on. -/
structure Refines (now : ℕ) (s : Offer × Set OfferVector) : Prop where
  distinct : DistinctStarts s.1
  retains : Retains startKey (stored s.1) s.2 now
  injOn : Set.InjOn startKey s.2

theorem Refines.later {now later : ℕ} {s : Offer × Set OfferVector} (h : Refines now s)
    (hle : now ≤ later) : Refines later s :=
  ⟨h.distinct, h.retains.mono hle, h.injOn⟩

/-- A vector after every stored one is after every ideal one. -/
theorem Refines.lt_of_stored {now k : ℕ} {s : Offer × Set OfferVector} (h : Refines now s)
    (hk : ∀ v ∈ stored s.1, startKey v < k) {v : OfferVector} (hv : v ∈ s.2) : startKey v < k := by
  by_cases hs : v ∈ stored s.1
  · exact hk v hs
  · obtain ⟨a, ha, _, _, hva, _⟩ := h.retains.covered v hv hs
    exact hva.trans (hk a ha)

/-- One edit, at a clock not before the last one. -/
theorem Refines.edit {a : VectorAction} {s s' : Offer × Set OfferVector}
    (h : Refines a.now.toNat s) (hpos : 0 < a.now.toNat) (hs : editBoth a s = .ok s') :
    Refines a.now.toNat s' := by
  simp only [editBoth, bind_eq_ok, pure_eq_ok] at hs
  obtain ⟨offer, ho, rfl⟩ := hs
  obtain ⟨now, instruction⟩ := a
  cases instruction with
  | add args =>
    obtain ⟨hd, hle, hlast, _, _, _, _, hret⟩ := addVector_spec h.distinct hpos ho
    refine ⟨hd, hret.trans (h.retains.insert _), ?_⟩
    have hnew : ∀ v ∈ s.2, startKey v < startKey (args.newVector now) :=
      fun v hv => h.lt_of_stored hlast hv
    rintro u (rfl | hu) v (rfl | hv) huv
    · rfl
    · exact absurd huv (hnew v hv).ne'
    · exact absurd huv (hnew u hu).ne
    · exact h.injOn hu hv huv
  | delete t =>
    obtain ⟨hd, hlt, hst⟩ := deleteVector_spec h.distinct ho
    have hkey : editSchedule ⟨now, .delete t⟩ s.2 = {v ∈ s.2 | startKey v ≠ t.toNat} := by
      ext v
      exact and_congr_right fun _ => not_congr UInt64.toNat_inj.symm
    refine ⟨hd, ?_, h.injOn.mono fun v hv => hv.1⟩
    rw [hst, hkey]
    exact h.retains.remove hlt
  | deleteAll =>
    cases Except.ok.inj ho
    refine ⟨h.distinct.clearSlots _, ?_, Set.injOn_empty _⟩
    rw [stored_deleteAllVectors]
    exact .refl _ _

theorem Refines.run {offer : Offer} (hd : DistinctStarts offer) (he : stored offer = ∅)
    (actions : List VectorAction) (hclock : ClockForward actions) {t : UInt64}
    (ht : ∀ a ∈ actions, a.now ≤ t) :
    Refines t.toNat (run editBoth (offer, ∅) actions) := by
  have hinit : Refines 0 (offer, ∅) := by
    refine ⟨hd, ?_, Set.injOn_empty _⟩
    rw [he]
    exact .refl _ _
  induction actions using List.reverseRecOn generalizing t with
  | nil => exact hinit.later (Nat.zero_le _)
  | append_singleton as a ih =>
    have hsplit := List.pairwise_append.mp hclock.monotone
    have hat : a.now ≤ t := ht a (by simp)
    have hprev : Refines a.now.toNat (Library.Run.run editBoth (offer, ∅) as) :=
      ih ⟨fun b hb => hclock.positive b (by simp [hb]), hsplit.1⟩ fun b hb =>
        hsplit.2.2 b hb a (by simp)
    have hpos : 0 < a.now.toNat := UInt64.lt_iff_toNat_lt.mp (hclock.positive a (by simp))
    rw [run_concat]
    exact (exec_preserves hprev fun s' hs => hprev.edit hpos hs).later
      (UInt64.le_iff_toNat_le.mp hat)

section Searches

variable {s : Offer × Set OfferVector} {t : UInt64} (h : Refines t.toNat s)
include h

theorem Refines.findActiveVectorAt_eq_ok (v : OfferVector) :
    findActiveVectorAt s.1 t = .ok v ↔ IsActive startKey s.2 t.toNat v := by
  rw [← h.retains.active_iff le_rfl, findActiveVectorAt, okOr_eq_ok]
  exact maxByKey_eq_some_iff h.distinct.injOn mem_active_slots

theorem Refines.findActiveVectorAt_isOk :
    (∃ v, findActiveVectorAt s.1 t = .ok v) ↔ ∃ v ∈ s.2, v.startTime ≤ t := by
  constructor
  · rintro ⟨v, hv⟩
    obtain ⟨hvs, hvt, _⟩ := findActiveVectorAt_spec hv
    exact ⟨v, h.retains.subset hvs, startKey_le.mp hvt⟩
  · rintro ⟨x, hx, hxt⟩
    cases hf : findActiveVectorAt s.1 t with
    | ok v => exact ⟨v, rfl⟩
    | error e =>
      obtain ⟨_, hnone⟩ := findActiveVectorAt_eq_error hf
      by_cases hxs : x ∈ stored s.1
      · exact absurd (startKey_le.mpr hxt) (hnone x hxs)
      · obtain ⟨_, _, b, hb, _, _, hbt⟩ := h.retains.covered x hx hxs
        exact absurd hbt (hnone b hb)

theorem Refines.findPreviousVector_eq_some {v : OfferVector}
    (hv : findActiveVectorAt s.1 t = .ok v) (u : OfferVector) :
    findPreviousVector s.1 v.startTime = some u ↔ IsPrevious startKey s.2 (startKey v) u := by
  rw [← h.retains.previous_iff le_rfl ((h.findActiveVectorAt_eq_ok v).mp hv), findPreviousVector]
  exact maxByKey_eq_some_iff h.distinct.injOn mem_previous_slots

theorem Refines.findPreviousVector_eq_none {v : OfferVector}
    (hv : findActiveVectorAt s.1 t = .ok v) :
    findPreviousVector s.1 v.startTime = none ↔ ∀ u ∈ s.2, ¬ u.startTime < v.startTime := by
  obtain ⟨_, _, hmax⟩ := findActiveVectorAt_spec hv
  rw [findPreviousVector, maxByKey_eq_none_iff (p := (· < startKey v)) mem_previous_slots]
  constructor
  · intro hnone u hu hlt
    by_cases hus : u ∈ stored s.1
    · exact hnone u hus (startKey_lt.mpr hlt)
    · obtain ⟨a, ha, b, hb, _, hab, hbt⟩ := h.retains.covered u hu hus
      exact hnone a ha (hab.trans_le (hmax b hb hbt))
  · intro hnone u hu hlt
    exact hnone u (h.retains.subset hu) (startKey_lt.mp hlt)

theorem Refines.findNextVectorAfter_eq_some (u : OfferVector) :
    findNextVectorAfter s.1 t = some u ↔ IsNext startKey s.2 t.toNat u := by
  rw [← h.retains.next_iff le_rfl, findNextVectorAfter]
  exact minByKey_eq_some_iff h.distinct.injOn mem_next_slots

theorem Refines.findNextVectorAfter_eq_none :
    findNextVectorAfter s.1 t = none ↔ ∀ u ∈ s.2, ¬ t < u.startTime := by
  rw [findNextVectorAfter, minByKey_eq_none_iff (p := (t.toNat < ·)) mem_next_slots]
  constructor
  · intro hnone u hu hlt
    by_cases hus : u ∈ stored s.1
    · exact hnone u hus (lt_startKey.mpr hlt)
    · obtain ⟨a, _, b, hb, hua, hab, hbt⟩ := h.retains.covered u hu hus
      exact absurd ((lt_startKey.mpr hlt).trans (hua.trans hab)) (Nat.not_lt.mpr hbt)
  · intro hnone u hu hlt
    exact hnone u (h.retains.subset hu) (lt_startKey.mp hlt)

end Searches

/-- A run of edits on a freshly made offer, at a clock that does not go back: from the last
clock value on, every search of the slots returns what the ideal schedule says. -/
theorem slots_refine_schedule (tokenInMint tokenOutMint : Pubkey) (fee : UInt16)
    (needsApproval permissionless : Bool) (actions : List VectorAction)
    (hclock : ClockForward actions) (t : UInt64) (ht : ∀ a ∈ actions, a.now ≤ t) :
    let fresh := newOffer tokenInMint tokenOutMint fee needsApproval permissionless
    let offer := run editVectors fresh actions
    let ideal := idealSchedule fresh actions
    ((∃ v, findActiveVectorAt offer t = .ok v) ↔ ∃ v ∈ ideal, v.startTime ≤ t) ∧
      (∀ v, findActiveVectorAt offer t = .ok v ↔ IsActive startKey ideal t.toNat v) ∧
      (∀ v, findActiveVectorAt offer t = .ok v →
        (∀ u, findPreviousVector offer v.startTime = some u ↔
          IsPrevious startKey ideal (startKey v) u) ∧
        (findPreviousVector offer v.startTime = none ↔
          ∀ u ∈ ideal, ¬ u.startTime < v.startTime)) ∧
      (∀ u, findNextVectorAfter offer t = some u ↔ IsNext startKey ideal t.toNat u) ∧
      (findNextVectorAfter offer t = none ↔ ∀ u ∈ ideal, ¬ t < u.startTime) := by
  intro fresh offer ideal
  have h : Refines t.toNat (run editBoth (fresh, ∅) actions) :=
    .run (distinctStarts_newOffer _ _ _ _ _) (stored_newOffer _ _ _ _ _) actions hclock ht
  have hoffer : (run editBoth (fresh, ∅) actions).1 = offer := run_editBoth_fst actions _
  have hactive := h.findActiveVectorAt_eq_ok
  have hok := h.findActiveVectorAt_isOk
  have hprev := fun v hv => h.findPreviousVector_eq_some (v := v) hv
  have hnoprev := fun v hv => h.findPreviousVector_eq_none (v := v) hv
  have hnext := h.findNextVectorAfter_eq_some
  have hnonext := h.findNextVectorAfter_eq_none
  rw [hoffer] at hactive hok hprev hnoprev hnext hnonext
  exact ⟨hok, hactive, fun v hv => ⟨hprev v hv, hnoprev v hv⟩, hnext, hnonext⟩

/-- Three additions, the last of which evicts the first from the slots: the price history
read at time 45 is that of the ideal schedule, which still holds all three. -/
theorem slots_refine_schedule_evicted :
    let fresh := newOffer ⟨1⟩ ⟨2⟩ 0 false false
    let actions := [20, 30, 40].map fun now =>
      (⟨now, .add ⟨none, 10, 1000, 0, 5⟩⟩ : VectorAction)
    ⟨20, 10, 1000, 0, 5⟩ ∉ (run editVectors fresh actions).slots ∧
      IsActive startKey (idealSchedule fresh actions) 45 ⟨40, 10, 1000, 0, 5⟩ ∧
      IsPrevious startKey (idealSchedule fresh actions) 40 ⟨30, 10, 1000, 0, 5⟩ := by
  intro fresh actions
  have hclock : ClockForward actions := ⟨by decide, by decide⟩
  obtain ⟨_, hactive, hprev, _⟩ :=
    slots_refine_schedule ⟨1⟩ ⟨2⟩ 0 false false actions hclock 45 (by decide)
  have hv : findActiveVectorAt (run editVectors fresh actions) 45 = .ok ⟨40, 10, 1000, 0, 5⟩ := by
    decide
  exact ⟨by decide, (hactive _).mp hv, ((hprev _ hv).1 _).mp (by decide)⟩

/-! ## The instructions -/

section Instructions

open Program

variable {env : Env} {w w' : World}

theorem BossOfferAccounts.load_eq_ok {ctx : BossOfferAccounts} {offer : Offer}
    (h : ctx.load w = .ok offer) :
    w.offers.lookup ctx.offerPda = some offer ∧ offer.tokenInMint = ctx.tokenInMint ∧
      offer.tokenOutMint = ctx.tokenOutMint ∧ ∃ s, w.state = some s ∧ s.boss = ctx.boss := by
  simp only [BossOfferAccounts.load, bind_eq_ok, World.loadOffer_eq_ok,
    Tokens.Ledger.loadMint_eq_ok, require_eq_ok, loadBossState_eq_ok, pure_eq_ok] at h
  obtain ⟨o, ho, m, ⟨_, hm⟩, _, hi, m', ⟨_, hm'⟩, _, hj, s, hs, rfl⟩ := h
  exact ⟨ho, hi.symm.trans hm, hj.symm.trans hm', s, hs⟩

theorem addOfferVector_ok {ctx : AddOfferVector} {args : AddOfferVectorArgs}
    (h : addOfferVector env ctx args w = .ok w') :
    ∃ offer offer', ctx.load w = .ok offer ∧
      editVectors ⟨env.now, .add args⟩ offer = .ok offer' ∧
      w' = w.setOffer ctx.offerPda offer' := by
  simp only [addOfferVector, bind_eq_ok, pure_eq_ok] at h
  obtain ⟨o, ho, o', he, rfl⟩ := h
  exact ⟨o, o', ho, he, rfl⟩

theorem deleteOfferVector_ok {ctx : DeleteOfferVector} {t : UInt64}
    (h : deleteOfferVector env ctx t w = .ok w') :
    ∃ offer offer', ctx.load w = .ok offer ∧
      editVectors ⟨env.now, .delete t⟩ offer = .ok offer' ∧
      w' = w.setOffer ctx.offerPda offer' := by
  simp only [deleteOfferVector, bind_eq_ok, pure_eq_ok] at h
  obtain ⟨o, ho, o', he, rfl⟩ := h
  exact ⟨o, o', ho, he, rfl⟩

theorem deleteAllOfferVectors_ok {ctx : DeleteAllOfferVectors}
    (h : deleteAllOfferVectors ctx w = .ok w') (now : UInt64) :
    ∃ offer offer', ctx.load w = .ok offer ∧
      editVectors ⟨now, .deleteAll⟩ offer = .ok offer' ∧
      w' = w.setOffer ctx.offerPda offer' := by
  simp only [deleteAllOfferVectors, bind_eq_ok, pure_eq_ok] at h
  obtain ⟨o, ho, rfl⟩ := h
  exact ⟨o, _, ho, rfl, rfl⟩

end Instructions

end OnreApp.Offers
