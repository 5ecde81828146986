import Mathlib.Order.Lattice
import Mathlib.Order.Bounds.Basic
import Mathlib.Data.Set.Insert

/-!
# Schedules and what may be forgotten of them

A schedule is a set of entries, each taking effect at its key. Three searches read it:
the entry in effect at a point (greatest key at or before it), the entry before another
(greatest key strictly before it), and the next one (least key strictly after it).

A store `S` *retains* an ideal schedule `I` from `c` on when all it lacks of `I` lies
below two stored entries that are themselves at or before `c`. Then no search from any
point at or after `c` can tell the two apart, whatever is scheduled later.
-/
namespace OnreApp.Library.Schedule

universe u v
variable {α : Type u} {κ : Type v} [LinearOrder κ] (key : α → κ)

/-- `v` has the greatest key among the entries whose key satisfies `p`. -/
def IsLatest (S : Set α) (p : κ → Prop) (v : α) : Prop :=
  (v ∈ S ∧ p (key v)) ∧ ∀ u ∈ S, p (key u) → key u ≤ key v

/-- `v` has the least key among the entries whose key satisfies `p`. -/
def IsEarliest (S : Set α) (p : κ → Prop) (v : α) : Prop :=
  (v ∈ S ∧ p (key v)) ∧ ∀ u ∈ S, p (key u) → key v ≤ key u

abbrev IsActive (S : Set α) (t : κ) (v : α) : Prop := IsLatest key S (· ≤ t) v

abbrev IsPrevious (S : Set α) (t : κ) (v : α) : Prop := IsLatest key S (· < t) v

abbrev IsNext (S : Set α) (t : κ) (v : α) : Prop := IsEarliest key S (t < ·) v

structure Retains (S I : Set α) (c : κ) : Prop where
  subset : S ⊆ I
  covered : ∀ x ∈ I, x ∉ S → ∃ a ∈ S, ∃ b ∈ S, key x < key a ∧ key a < key b ∧ key b ≤ c

variable {key} {S I : Set α} {c t : κ}

theorem Retains.refl (S : Set α) (c : κ) : Retains key S S c :=
  ⟨fun _ h => h, fun _ h hn => absurd h hn⟩

theorem Retains.mono (h : Retains key S I c) (hc : c ≤ t) : Retains key S I t :=
  ⟨h.subset, fun x hx hn => by
    obtain ⟨a, ha, b, hb, hxa, hab, hbc⟩ := h.covered x hx hn
    exact ⟨a, ha, b, hb, hxa, hab, hbc.trans hc⟩⟩

/-- Where keys are distinct there is one latest entry at most. -/
theorem IsLatest.unique {p : κ → Prop} (hinj : Set.InjOn key S) {v w : α}
    (hv : IsLatest key S p v) (hw : IsLatest key S p w) : v = w :=
  hinj hv.1.1 hw.1.1 (le_antisymm (hw.2 v hv.1.1 hv.1.2) (hv.2 w hw.1.1 hw.1.2))

/-- An entry of the ideal schedule that some stored entry at or before `t` exceeds is
not in effect at `t`. -/
theorem Retains.mem_of_active (h : Retains key S I c) (hc : c ≤ t) {v : α}
    (hv : IsActive key I t v) : v ∈ S := by
  by_contra hn
  obtain ⟨a, ha, b, hb, hxa, hab, hbc⟩ := h.covered v hv.1.1 hn
  exact absurd (hv.2 b (h.subset hb) (hbc.trans hc)) (not_le.mpr (hxa.trans hab))

/-- The same entry is in effect. -/
theorem Retains.active_iff (h : Retains key S I c) (hc : c ≤ t) (v : α) :
    IsActive key S t v ↔ IsActive key I t v := by
  constructor
  · rintro ⟨⟨hv, hvt⟩, hmax⟩
    refine ⟨⟨h.subset hv, hvt⟩, fun u hu hut => ?_⟩
    by_cases hs : u ∈ S
    · exact hmax u hs hut
    · obtain ⟨a, ha, b, hb, hua, hab, hbc⟩ := h.covered u hu hs
      exact (hua.trans hab).le.trans (hmax b hb (hbc.trans hc))
  · intro hv
    exact ⟨⟨h.mem_of_active hc hv, hv.1.2⟩, fun u hu => hv.2 u (h.subset hu)⟩

/-- The entry in effect has the same predecessor. -/
theorem Retains.previous_iff (h : Retains key S I c) (hc : c ≤ t) {v : α}
    (hv : IsActive key I t v) (u : α) :
    IsPrevious key S (key v) u ↔ IsPrevious key I (key v) u := by
  -- A forgotten entry lies below some stored `a`, and `a` before the entry in effect.
  have hcov : ∀ x ∈ I, x ∉ S → ∃ a ∈ S, key x < key a ∧ key a < key v := by
    intro x hx hn
    obtain ⟨a, ha, b, hb, hxa, hab, hbc⟩ := h.covered x hx hn
    exact ⟨a, ha, hxa, hab.trans_le (hv.2 b (h.subset hb) (hbc.trans hc))⟩
  constructor
  · rintro ⟨⟨hu, hut⟩, hmax⟩
    refine ⟨⟨h.subset hu, hut⟩, fun x hx hxt => ?_⟩
    by_cases hs : x ∈ S
    · exact hmax x hs hxt
    · obtain ⟨a, ha, hxa, hav⟩ := hcov x hx hs
      exact hxa.le.trans (hmax a ha hav)
  · rintro ⟨⟨hu, hut⟩, hmax⟩
    refine ⟨⟨?_, hut⟩, fun x hx => hmax x (h.subset hx)⟩
    by_contra hn
    obtain ⟨a, ha, hxa, hav⟩ := hcov u hu hn
    exact absurd (hmax a (h.subset ha) hav) (not_le.mpr hxa)

/-- The same entry comes next. -/
theorem Retains.next_iff (h : Retains key S I c) (hc : c ≤ t) (v : α) :
    IsNext key S t v ↔ IsNext key I t v := by
  have hmem : ∀ x ∈ I, t < key x → x ∈ S := by
    intro x hx ht
    by_contra hn
    obtain ⟨a, ha, b, hb, hxa, hab, hbc⟩ := h.covered x hx hn
    exact absurd (hbc.trans hc) (not_le.mpr (ht.trans (hxa.trans hab)))
  constructor
  · rintro ⟨⟨hv, hvt⟩, hmin⟩
    exact ⟨⟨h.subset hv, hvt⟩, fun u hu hut => hmin u (hmem u hu hut) hut⟩
  · rintro ⟨⟨hv, hvt⟩, hmin⟩
    exact ⟨⟨hmem v hv hvt, hvt⟩, fun u hu => hmin u (h.subset hu)⟩

theorem Retains.insert (h : Retains key S I c) (x : α) :
    Retains key (insert x S) (insert x I) c := by
  refine ⟨Set.insert_subset_insert h.subset, fun y hy hn => ?_⟩
  obtain ⟨hne, hns⟩ := not_or.mp hn
  obtain ⟨a, ha, b, hb, hya, hab, hbc⟩ := h.covered y (hy.resolve_left hne) hns
  exact ⟨a, .inr ha, b, .inr hb, hya, hab, hbc⟩

/-- Entries after `c` may be taken out of both. -/
theorem Retains.remove (h : Retains key S I c) {k : κ} (hk : c < k) :
    Retains key {x ∈ S | key x ≠ k} {x ∈ I | key x ≠ k} c := by
  refine ⟨fun x hx => ⟨h.subset hx.1, hx.2⟩, fun x hx hn => ?_⟩
  obtain ⟨a, ha, b, hb, hxa, hab, hbc⟩ := h.covered x hx.1 fun hs => hn ⟨hs, hx.2⟩
  exact ⟨a, ⟨ha, (hab.trans_le (hbc.trans hk.le)).ne⟩, b, ⟨hb, (hbc.trans_lt hk).ne⟩,
    hxa, hab, hbc⟩

/-- Forgetting in stages is forgetting: what covered an entry is itself covered, or kept. -/
theorem Retains.trans {S' : Set α} (h' : Retains key S' S c) (h : Retains key S I c) :
    Retains key S' I c := by
  refine ⟨fun x hx => h.subset (h'.subset hx), fun x hx hn => ?_⟩
  by_cases hs : x ∈ S
  · exact h'.covered x hs hn
  · obtain ⟨a, ha, b, hb, hxa, hab, hbc⟩ := h.covered x hx hs
    by_cases hka : a ∈ S'
    · by_cases hkb : b ∈ S'
      · exact ⟨a, hka, b, hkb, hxa, hab, hbc⟩
      · obtain ⟨a', ha', b', hb', hba', hab', hbc'⟩ := h'.covered b hb hkb
        exact ⟨a', ha', b', hb', hxa.trans (hab.trans hba'), hab', hbc'⟩
    · obtain ⟨a', ha', b', hb', haa', hab', hbc'⟩ := h'.covered a ha hka
      exact ⟨a', ha', b', hb', hxa.trans haa', hab', hbc'⟩

end OnreApp.Library.Schedule
