import Mathlib.Data.Finmap
import Mathlib.Algebra.BigOperators.Group.Finset.Piecewise
import Mathlib.Algebra.Order.BigOperators.Group.Finset

/-!
# Finite stores and their totals

A store maps finitely many keys to records; it is Mathlib's `Finmap` at a constant
type. `total s f` adds `f` over the records present. Writing a key moves a total by
the new record less the old one, which is all an accounting argument needs.
-/
namespace OnreApp.Library.FiniteStore

open Finset

universe u v
variable {K : Type u} {V : Type v} [DecidableEq K]

abbrev Store (K : Type u) (V : Type v) := Finmap fun _ : K => V

/-- What one key contributes to a total: nothing where no record is. -/
def weigh (f : K → V → ℕ) (s : Store K V) (k : K) : ℕ := (s.lookup k).elim 0 (f k)

def total (s : Store K V) (f : K → V → ℕ) : ℕ := ∑ k ∈ s.keys, weigh f s k

theorem weigh_of_some {f : K → V → ℕ} {s : Store K V} {k : K} {v : V}
    (h : s.lookup k = some v) : weigh f s k = f k v := by
  simp [weigh, h]

theorem weigh_of_none {f : K → V → ℕ} {s : Store K V} {k : K}
    (h : s.lookup k = none) : weigh f s k = 0 := by
  simp [weigh, h]

@[simp] theorem total_empty (f : K → V → ℕ) : total (∅ : Store K V) f = 0 := by
  simp [total]

theorem lookup_insert_eq (s : Store K V) (k k' : K) (v : V) :
    (s.insert k v).lookup k' = if k' = k then some v else s.lookup k' := by
  split
  · next h => subst h; exact Finmap.lookup_insert s
  · next h => exact Finmap.lookup_insert_of_ne s h

/-- A record found after a write is the one written, or was there before. -/
theorem lookup_insert_cases {s : Store K V} {k k' : K} {v v' : V}
    (h : (s.insert k v).lookup k' = some v') : k' = k ∧ v' = v ∨ s.lookup k' = some v' := by
  rw [lookup_insert_eq] at h
  split at h
  · next hk => exact .inl ⟨hk, (Option.some.inj h).symm⟩
  · exact .inr h

/-- A new record leaves the others. -/
theorem lookup_insert_of_fresh {s : Store K V} {k₀ k : K} {v₀ v : V} (h₀ : s.lookup k₀ = none)
    (h : s.lookup k = some v) : (s.insert k₀ v₀).lookup k = some v := by
  rw [lookup_insert_eq]
  split
  · next hk =>
    rw [hk, h₀] at h
    cases h
  · exact h

/-- Rewriting one record leaves every record as it was, or as it may become. -/
theorem exists_lookup_insert {s : Store K V} {R : V → V → Prop} (hrefl : ∀ v, R v v)
    {k₀ k : K} {v₀ v₁ v : V} (h₀ : s.lookup k₀ = some v₀) (hR : R v₀ v₁)
    (h : s.lookup k = some v) : ∃ v', (s.insert k₀ v₁).lookup k = some v' ∧ R v v' := by
  rw [lookup_insert_eq]
  split
  · next hk =>
    rw [hk, h₀] at h
    obtain rfl := Option.some.inj h
    exact ⟨v₁, rfl, hR⟩
  · exact ⟨v, h, hrefl v⟩

theorem lookup_erase_eq (s : Store K V) (k k' : K) :
    (s.erase k).lookup k' = if k' = k then none else s.lookup k' := by
  split
  · next h => subst h; exact Finmap.lookup_erase k' s
  · next h => exact Finmap.lookup_erase_ne h

/-- Rewrite the record of a key that is present. -/
def modify (s : Store K V) (k : K) (f : V → V) : Store K V :=
  match s.lookup k with
  | some v => s.insert k (f v)
  | none => s

theorem modify_of_some {s : Store K V} {k : K} {v : V} (h : s.lookup k = some v) (f : V → V) :
    modify s k f = s.insert k (f v) := by
  simp [modify, h]

theorem lookup_modify (s : Store K V) (k k' : K) (f : V → V) :
    (modify s k f).lookup k' = if k' = k then (s.lookup k).map f else s.lookup k' := by
  unfold modify
  split
  · next v h => rw [lookup_insert_eq, h]; rfl
  · next h =>
    split
    · next he => rw [he, h]; rfl
    · rfl

/-- What the rewriting leaves alone reads the same in every record. -/
theorem map_lookup_modify {β : Type*} (s : Store K V) (k k' : K) {f : V → V} {g : V → β}
    (hg : ∀ v, g (f v) = g v) : ((modify s k f).lookup k').map g = (s.lookup k').map g := by
  rw [lookup_modify]
  split
  · next he =>
    rw [he, Option.map_map]
    exact congrArg (Option.map · _) (funext hg)
  · rfl

theorem elim_lookup_modify {β : Type*} (s : Store K V) (k k' : K) (f : V → V) (b : β)
    (g : V → β) : ((modify s k f).lookup k').elim b g =
      if k' = k then (s.lookup k).elim b (fun v => g (f v)) else (s.lookup k').elim b g := by
  rw [lookup_modify]
  split
  · cases s.lookup k <;> rfl
  · rfl

/-- What the rewriting keeps of each record is still found. -/
theorem exists_lookup_modify {s : Store K V} {k k' : K} {f : V → V} {P : V → Prop}
    (hf : ∀ v, P v → P (f v)) (h : ∃ v, s.lookup k' = some v ∧ P v) :
    ∃ v, (modify s k f).lookup k' = some v ∧ P v := by
  obtain ⟨v, hv, hP⟩ := h
  rw [lookup_modify]
  split
  · next he => exact ⟨f v, Option.map_eq_some_iff.mpr ⟨v, he ▸ hv, rfl⟩, hf v hP⟩
  · exact ⟨v, hv, hP⟩

/-- Writing back what is there changes nothing. -/
theorem insert_of_lookup {s : Store K V} {k : K} {v : V} (h : s.lookup k = some v) :
    s.insert k v = s := by
  refine Finmap.ext_lookup fun k' => ?_
  rw [lookup_insert_eq]
  split
  · next hk => rw [hk, h]
  · rfl

theorem insert_insert_eq (s : Store K V) (k : K) (v v' : V) :
    (s.insert k v).insert k v' = s.insert k v' := by
  refine Finmap.ext_lookup fun k' => ?_
  simp only [lookup_insert_eq]
  split <;> rfl

theorem total_erase (s : Store K V) (f : K → V → ℕ) (k : K) :
    total (s.erase k) f + weigh f s k = total s f := by
  have he : total (s.erase k) f = ∑ k' ∈ s.keys.erase k, weigh f s k' := by
    rw [total, Finmap.keys_erase]
    refine sum_congr rfl fun k' hk' => ?_
    simp [weigh, (mem_erase.mp hk').1]
  by_cases hk : k ∈ s.keys
  · rw [he, total, sum_erase_add _ _ hk]
  · have hn : s.lookup k = none := by
      rwa [Finmap.mem_keys, ← Finmap.lookup_eq_none] at hk
    rw [he, erase_eq_of_notMem hk, weigh_of_none hn, Nat.add_zero, total]

/-- Writing a record adds the new weight and takes the old one away. -/
theorem total_insert (s : Store K V) (f : K → V → ℕ) (k : K) (v : V) :
    total (s.insert k v) f + weigh f s k = total s f + f k v := by
  have hw := total_erase (s.insert k v) f k
  have hs := total_erase s f k
  have he : (s.insert k v).erase k = s.erase k := by
    refine Finmap.ext_lookup fun k' => ?_
    simp only [lookup_erase_eq, lookup_insert_eq]
    split <;> rfl
  rw [he, weigh_of_some (Finmap.lookup_insert s)] at hw
  omega

theorem total_insert_new {s : Store K V} {k : K} (h : s.lookup k = none) (f : K → V → ℕ) (v : V) :
    total (s.insert k v) f = total s f + f k v := by
  have := total_insert s f k v
  rwa [weigh_of_none h, Nat.add_zero] at this

theorem weigh_le_total (s : Store K V) (f : K → V → ℕ) (k : K) : weigh f s k ≤ total s f := by
  have := total_erase s f k
  omega

theorem le_total {s : Store K V} {k : K} {v : V} (h : s.lookup k = some v) (f : K → V → ℕ) :
    f k v ≤ total s f := by
  have := weigh_le_total s f k
  rwa [weigh_of_some h] at this

/-! ## Totals by key -/

variable {K' : Type u} {V' : Type v} [DecidableEq K']

/-- A store whose every key weighs what the records of another store under that key weigh
together has the total of all of these. -/
theorem total_eq_of_fibers {s : Store K V} {t : Store K' V'} {f : K → V → ℕ} {g : K' → V' → ℕ}
    (key : K' → V' → K)
    (h : ∀ k, weigh f s k = total t fun p r => if key p r = k then g p r else 0) :
    total s f = total t g := by
  have hswap : total s f =
      ∑ p ∈ t.keys, ∑ k ∈ s.keys, weigh (fun p r => if key p r = k then g p r else 0) t p := by
    rw [sum_comm, total]
    exact sum_congr rfl fun k _ => h k
  rw [hswap, total]
  apply sum_congr rfl
  intro p hp
  obtain ⟨r, hr⟩ := Finmap.mem_iff.mp (Finmap.mem_keys.mp hp)
  rw [weigh_of_some hr]
  simp only [weigh_of_some hr]
  rw [sum_ite_eq]
  split
  · rfl
  · next hkey =>
    -- The key of a record that is not in the first store weighs nothing.
    have hnone : s.lookup (key p r) = none := by
      rwa [Finmap.mem_keys, ← Finmap.lookup_eq_none] at hkey
    have hle := le_total hr fun p' r' => if key p' r' = key p r then g p' r' else 0
    rw [← h, weigh_of_none hnone, if_pos rfl] at hle
    omega

end OnreApp.Library.FiniteStore
