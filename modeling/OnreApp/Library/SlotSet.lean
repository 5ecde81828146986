import Mathlib.Data.Finset.Card
import Mathlib.Data.List.Count

/-!
# A set kept in slots

A fixed number of slots holds a set: a slot with the blank value is free, and every other
value stands in at most one slot. An element is added by writing it to a free slot and
removed by blanking its slot, so the slots may be filled in any pattern.
-/
namespace OnreApp.Library.SlotSet

universe u
variable {α : Type u} [DecidableEq α] (blank : α)

/-- The set that the slots stand for. -/
def members (slots : List α) : Finset α := slots.toFinset.erase blank

/-- No value but the blank one stands in two slots. -/
def Distinct (slots : List α) : Prop := ∀ k, k ≠ blank → slots.count k ≤ 1

variable {blank} {slots : List α} {i : ℕ} {k : α}

theorem mem_members : k ∈ members blank slots ↔ k ≠ blank ∧ k ∈ slots := by
  rw [members, Finset.mem_erase, List.mem_toFinset]

theorem getElem?_of_findIdx? (h : slots.findIdx? (· = k) = some i) : slots[i]? = some k := by
  obtain ⟨hi, hk, _⟩ := List.findIdx?_eq_some_iff_getElem.mp h
  rw [List.getElem?_eq_getElem hi, of_decide_eq_true hk]

theorem exists_findIdx?_iff : (∃ i, slots.findIdx? (· = k) = some i) ↔ k ∈ slots := by
  rw [← Option.isSome_iff_exists, List.findIdx?_isSome, List.any_eq_true]
  constructor
  · intro h
    obtain ⟨x, hx, he⟩ := h
    rw [← of_decide_eq_true he]
    exact hx
  · intro h
    exact ⟨k, h, decide_eq_true rfl⟩

/-- Writing `a` over the value `b` of slot `i`. -/
theorem count_set_add {a b : α} (hi : slots[i]? = some b) (c : α) :
    (slots.set i a).count c + (if b = c then 1 else 0) =
      slots.count c + (if a = c then 1 else 0) := by
  obtain ⟨hlt, hb⟩ := List.getElem?_eq_some_iff.mp hi
  have hpos : b = c → 0 < slots.count c := by
    intro hc
    rw [List.count_pos_iff, ← hc, ← hb]
    exact List.getElem_mem hlt
  rw [List.count_set hlt, hb]
  simp only [beq_iff_eq]
  split
  · next hc =>
    have := hpos hc
    omega
  · omega

theorem mem_set_of_blank {c : α} (hi : slots[i]? = some blank) (hc : c ≠ blank) :
    c ∈ slots.set i k ↔ c = k ∨ c ∈ slots := by
  have h := count_set_add (a := k) hi c
  rw [if_neg hc.symm, Nat.add_zero] at h
  rw [← List.count_pos_iff, ← List.count_pos_iff, h]
  split
  · next hk => simp [hk]
  · next hk => simp [Ne.symm hk]

/-! ## Adding -/

theorem members_set (hi : slots[i]? = some blank) (hk : k ≠ blank) :
    members blank (slots.set i k) = insert k (members blank slots) := by
  apply Finset.ext
  intro c
  rw [Finset.mem_insert, mem_members, mem_members]
  by_cases hc : c = blank
  · simp [hc, hk.symm]
  · rw [mem_set_of_blank hi hc]
    simp [hc]

theorem Distinct.set (h : Distinct blank slots) (hi : slots[i]? = some blank) (hk : k ∉ slots) :
    Distinct blank (slots.set i k) := by
  intro c hc
  have hcount := count_set_add (a := k) hi c
  rw [if_neg hc.symm] at hcount
  split at hcount
  · next he =>
    rw [← he, List.count_eq_zero_of_not_mem hk] at hcount
    rw [← he]
    omega
  · have := h c hc
    omega

/-! ## Removing -/

theorem members_clear (h : Distinct blank slots) (hi : slots[i]? = some k) :
    members blank (slots.set i blank) = (members blank slots).erase k := by
  apply Finset.ext
  intro c
  rw [Finset.mem_erase, mem_members, mem_members]
  by_cases hc : c = blank
  · simp [hc]
  · have hcount := count_set_add (a := blank) hi c
    rw [if_neg (Ne.symm hc)] at hcount
    rw [← List.count_pos_iff, ← List.count_pos_iff]
    have hle := h c hc
    split at hcount
    · next he =>
      rw [he]
      simp only [ne_eq, not_true_eq_false, false_and, iff_false, not_and]
      intro _
      omega
    · next he =>
      rw [Nat.add_zero, Nat.add_zero] at hcount
      rw [hcount]
      simp [hc, Ne.symm he]

theorem Distinct.clear (h : Distinct blank slots) (hi : slots[i]? = some k) :
    Distinct blank (slots.set i blank) := by
  intro c hc
  have hcount := count_set_add (a := blank) hi c
  rw [if_neg hc.symm] at hcount
  have := h c hc
  split at hcount <;> omega

/-! ## Capacity -/

theorem card_members (h : Distinct blank slots) :
    (members blank slots).card + slots.count blank = slots.length := by
  have hnodup : (slots.filter (· ≠ blank)).Nodup := by
    rw [List.nodup_iff_count_le_one]
    intro c
    by_cases hc : c = blank
    · rw [hc, List.count_eq_zero_of_not_mem]
      · exact Nat.zero_le 1
      · simp
    · exact Nat.le_trans (List.Sublist.count_le c List.filter_sublist) (h c hc)
  have hset : members blank slots = (slots.filter (· ≠ blank)).toFinset := by
    apply Finset.ext
    intro c
    rw [mem_members, List.mem_toFinset, List.mem_filter, and_comm]
    simp
  rw [hset, List.toFinset_card_of_nodup hnodup, ← List.countP_eq_length_filter, List.count,
    List.length_eq_countP_add_countP (· ≠ blank) (l := slots)]
  congr 1
  apply List.countP_congr
  simp

/-- A slot is free exactly while the set is below the number of slots. -/
theorem blank_mem_iff (h : Distinct blank slots) :
    blank ∈ slots ↔ (members blank slots).card < slots.length := by
  have := card_members h
  rw [← List.count_pos_iff]
  omega

theorem card_le (h : Distinct blank slots) : (members blank slots).card ≤ slots.length := by
  have := card_members h
  omega

/-! ## No elements -/

theorem members_replicate (n : ℕ) : members blank (List.replicate n blank) = ∅ := by
  apply Finset.eq_empty_of_forall_notMem
  intro c hc
  obtain ⟨hne, hmem⟩ := mem_members.mp hc
  exact hne (List.eq_of_mem_replicate hmem)

theorem distinct_replicate (n : ℕ) : Distinct blank (List.replicate n blank) := by
  intro c hc
  rw [List.count_eq_zero_of_not_mem]
  · exact Nat.zero_le 1
  · intro hmem
    exact hc (List.eq_of_mem_replicate hmem)

end OnreApp.Library.SlotSet
