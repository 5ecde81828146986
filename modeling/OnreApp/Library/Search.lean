import Mathlib.Data.List.MinMax
import OnreApp.Library.Schedule

/-!
# Searching a list by key

`maxByKey` and `minByKey` return an entry with the greatest or least key: of several, the
last greatest and the first least. Where keys are distinct the result is the one entry the
schedule specification describes.
-/
namespace OnreApp.Library.Search

open Schedule

universe u v
variable {α : Type u} {κ : Type v} [LinearOrder κ] (key : α → κ)

def maxByKey (l : List α) : Option α := l.reverse.argmax key

def minByKey (l : List α) : Option α := l.argmin key

variable {key} {l : List α} {v : α}

theorem maxByKey_spec (h : maxByKey key l = some v) : v ∈ l ∧ ∀ u ∈ l, key u ≤ key v :=
  ⟨List.mem_reverse.mp (List.argmax_mem h), fun _ hu =>
    List.le_of_mem_argmax (List.mem_reverse.mpr hu) h⟩

theorem minByKey_spec (h : minByKey key l = some v) : v ∈ l ∧ ∀ u ∈ l, key v ≤ key u :=
  ⟨List.argmin_mem h, fun _ hu => List.le_of_mem_argmin hu h⟩

@[simp] theorem maxByKey_eq_none : maxByKey key l = none ↔ l = [] := by
  rw [maxByKey, List.argmax_eq_none, List.reverse_eq_nil_iff]

@[simp] theorem minByKey_eq_none : minByKey key l = none ↔ l = [] := List.argmin_eq_none

section Distinct

variable {S : Set α} {p : κ → Prop}

/-- A list that enumerates the entries satisfying `p`, searched for the greatest key. -/
theorem maxByKey_eq_some_iff (hinj : Set.InjOn key S)
    (hmem : ∀ u, u ∈ l ↔ u ∈ S ∧ p (key u)) :
    maxByKey key l = some v ↔ IsLatest key S p v := by
  constructor
  · intro h
    obtain ⟨hv, hmax⟩ := maxByKey_spec h
    exact ⟨(hmem v).mp hv, fun u hu hp => hmax u ((hmem u).mpr ⟨hu, hp⟩)⟩
  · rintro ⟨hv, hmax⟩
    cases h : maxByKey key l with
    | none =>
      have hv' := (hmem v).mpr hv
      rw [maxByKey_eq_none.mp h] at hv'
      exact absurd hv' List.not_mem_nil
    | some w =>
      obtain ⟨hw, hwmax⟩ := maxByKey_spec h
      have hw' := (hmem w).mp hw
      have hkey : key w = key v :=
        le_antisymm (hmax w hw'.1 hw'.2) (hwmax v ((hmem v).mpr hv))
      rw [hinj hw'.1 hv.1 hkey]

theorem minByKey_eq_some_iff (hinj : Set.InjOn key S)
    (hmem : ∀ u, u ∈ l ↔ u ∈ S ∧ p (key u)) :
    minByKey key l = some v ↔ IsEarliest key S p v := by
  constructor
  · intro h
    obtain ⟨hv, hmin⟩ := minByKey_spec h
    exact ⟨(hmem v).mp hv, fun u hu hp => hmin u ((hmem u).mpr ⟨hu, hp⟩)⟩
  · rintro ⟨hv, hmin⟩
    cases h : minByKey key l with
    | none =>
      have hv' := (hmem v).mpr hv
      rw [minByKey_eq_none.mp h] at hv'
      exact absurd hv' List.not_mem_nil
    | some w =>
      obtain ⟨hw, hwmin⟩ := minByKey_spec h
      have hw' := (hmem w).mp hw
      have hkey : key w = key v :=
        le_antisymm (hwmin v ((hmem v).mpr hv)) (hmin w hw'.1 hw'.2)
      rw [hinj hw'.1 hv.1 hkey]

/-- The search fails exactly where no entry qualifies. -/
theorem maxByKey_eq_none_iff (hmem : ∀ u, u ∈ l ↔ u ∈ S ∧ p (key u)) :
    maxByKey key l = none ↔ ∀ u ∈ S, ¬ p (key u) := by
  rw [maxByKey_eq_none, List.eq_nil_iff_forall_not_mem]
  exact forall_congr' fun u => by rw [hmem, not_and]

theorem minByKey_eq_none_iff (hmem : ∀ u, u ∈ l ↔ u ∈ S ∧ p (key u)) :
    minByKey key l = none ↔ ∀ u ∈ S, ¬ p (key u) := by
  rw [minByKey_eq_none, List.eq_nil_iff_forall_not_mem]
  exact forall_congr' fun u => by rw [hmem, not_and]

end Distinct

end OnreApp.Library.Search
