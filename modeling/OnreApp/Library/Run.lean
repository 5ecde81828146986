import Mathlib.Data.List.Induction
import OnreApp.Library.Outcome

/-!
# Runs of a transactional machine

A step function `step : α → σ → Except ε σ` gives each action either a new state or
an error. A failed action reverts: it leaves the state as it was. A run is a list of
actions, each applied to the state the ones before it left.
-/
namespace OnreApp.Library.Run

universe u v w
variable {ε : Type u} {α : Type v} {σ : Type w} (step : α → σ → Except ε σ)

/-- One action on the state; an error reverts. -/
def exec (s : σ) (a : α) : σ :=
  match step a s with
  | .ok s' => s'
  | .error _ => s

/-- A list of actions, first one first. -/
def run (s : σ) (as : List α) : σ := as.foldl (exec step) s

@[simp] theorem run_nil (s : σ) : run step s [] = s := rfl

@[simp] theorem run_cons (s : σ) (a : α) (as : List α) :
    run step s (a :: as) = run step (exec step s a) as := rfl

theorem run_append (s : σ) (as bs : List α) :
    run step s (as ++ bs) = run step (run step s as) bs := List.foldl_append

theorem run_concat (s : σ) (as : List α) (a : α) :
    run step s (as ++ [a]) = exec step (run step s as) a := by
  rw [run_append]; rfl

/-- Every action of the list meets `C` together with the state it is applied to. -/
def Along (C : σ → α → Prop) : σ → List α → Prop
  | _, [] => True
  | s, a :: as => C s a ∧ Along C (exec step s a) as

instance decidableAlong (C : σ → α → Prop) [∀ s a, Decidable (C s a)] :
    ∀ (s : σ) (as : List α), Decidable (Along step C s as)
  | _, [] => isTrue trivial
  | s, a :: as =>
    have := decidableAlong C (exec step s a) as
    inferInstanceAs (Decidable (C s a ∧ Along step C (exec step s a) as))

variable {step}

theorem exec_ok {s s' : σ} {a : α} (h : step a s = .ok s') : exec step s a = s' := by
  simp [exec, h]

theorem exec_error {s : σ} {a : α} {e : ε} (h : step a s = .error e) : exec step s a = s := by
  simp [exec, h]

/-- What holds before an action and after every success of it holds after it. -/
theorem exec_preserves {P : σ → Prop} {s : σ} {a : α} (hs : P s)
    (h : ∀ s', step a s = .ok s' → P s') : P (exec step s a) := by
  unfold exec
  split
  · exact h _ ‹_›
  · exact hs

/-- `Along` looks at every action after the run of those before it. -/
theorem along_iff {C : σ → α → Prop} {s : σ} {as : List α} :
    Along step C s as ↔ ∀ pre a post, as = pre ++ a :: post → C (run step s pre) a := by
  induction as generalizing s with
  | nil => simp [Along]
  | cons b bs ih =>
    constructor
    · intro h pre a post he
      cases pre with
      | nil =>
        obtain ⟨rfl, -⟩ := List.cons.inj he
        exact h.1
      | cons c pre =>
        obtain ⟨rfl, hbs⟩ := List.cons.inj he
        exact ih.mp h.2 pre a post hbs
    · intro h
      refine ⟨h [] b bs rfl, ih.mpr fun pre a post he => ?_⟩
      exact h (b :: pre) a post (congrArg (b :: ·) he)

theorem along_of_forall {C : σ → α → Prop} {s : σ} {as : List α} (h : ∀ a ∈ as, ∀ s, C s a) :
    Along step C s as := by
  rw [along_iff]
  intro pre a post he
  exact h a (by rw [he]; simp) _

theorem along_true (s : σ) (as : List α) : Along step (fun _ _ => True) s as :=
  along_of_forall fun _ _ _ => trivial

theorem Along.prefix {C : σ → α → Prop} {s : σ} {as bs : List α} (h : Along step C s (as ++ bs)) :
    Along step C s as := by
  rw [along_iff] at h ⊢
  intro pre a post he
  exact h pre a (post ++ bs) (by rw [he, List.append_assoc]; rfl)

/-- An invariant of the steps is an invariant of the runs. The step lemma may use the
actions already taken, which carry what a history variable would. -/
theorem run_induction {P : List α → σ → Prop} {s : σ} (init : P [] s)
    (next : ∀ as a s', P as s' → P (as ++ [a]) (exec step s' a)) :
    ∀ as, P as (run step s as) := by
  intro as
  induction as using List.reverseRecOn with
  | nil => exact init
  | append_singleton as a ih =>
    rw [run_concat]
    exact next as a _ ih

/-- The invariant rule for a run whose every action meets a condition on the state it
meets. -/
theorem run_invariant {P : σ → Prop} {C : σ → α → Prop}
    (next : ∀ a s s', P s → C s a → step a s = .ok s' → P s') {s : σ} (init : P s) {as : List α}
    (h : Along step C s as) : P (run step s as) := by
  induction as generalizing s with
  | nil => exact init
  | cons a as ih =>
    obtain ⟨ha, has⟩ := h
    exact ih (exec_preserves init fun s' hs => next a s s' init ha hs) has

/-- The invariant rule for steps that preserve the property unconditionally. -/
theorem run_preserves {P : σ → Prop} {s : σ} (init : P s)
    (next : ∀ a s' s'', P s' → step a s' = .ok s'' → P s'') (as : List α) :
    P (run step s as) :=
  run_induction (P := fun _ s => P s) init (fun _ a _ hp => exec_preserves hp (next a _ · hp)) as

/-- What a run brings about, the success of one of its actions brings about. -/
theorem exists_action_of_run {P : σ → Prop} {s : σ} {as : List α} (init : ¬ P s)
    (h : P (run step s as)) : ∃ pre a post s', as = pre ++ a :: post ∧
      ¬ P (run step s pre) ∧ step a (run step s pre) = .ok s' ∧ P s' := by
  induction as using List.reverseRecOn with
  | nil => exact absurd h init
  | append_singleton as a ih =>
    by_cases hbefore : P (run step s as)
    · obtain ⟨pre, b, post, s', he, hb⟩ := ih hbefore
      exact ⟨pre, b, post ++ [a], s', by rw [he, List.append_assoc, List.cons_append], hb⟩
    · rw [run_concat] at h
      cases hs : step a (run step s as) with
      | ok s' =>
        rw [exec_ok hs] at h
        exact ⟨as, a, [], s', rfl, hbefore, hs, h⟩
      | error e =>
        rw [exec_error hs] at h
        exact absurd h hbefore

end OnreApp.Library.Run
