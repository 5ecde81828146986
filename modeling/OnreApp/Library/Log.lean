import Mathlib.Algebra.Ring.Nat
import OnreApp.Library.Run

/-!
# Logs of a transactional machine

A success appends the records it emits to the log, a failure appends none. Whoever follows
the log keeps an image of the part of the state of interest and applies each record to it;
if one success takes the image of the state before it to the image of the state after it, so
does the log of a whole run.

A tally is the log of one number for each success, added up. A quantity that each success
moves by what it takes in and what it gives out is accounted for by two tallies.
-/
namespace OnreApp.Library.Log

open Library.Run

universe u v w x y
variable {ε : Type u} {α : Type v} {σ : Type w} {ι : Type x} {β : Type y}

/-- What one action adds to the log. -/
def logged (step : α → σ → Except ε σ) (emit : α → σ → List ι) (s : σ) (a : α) : List ι :=
  match step a s with
  | .ok _ => emit a s
  | .error _ => []

/-- The log of a run, first record first. -/
def log (step : α → σ → Except ε σ) (emit : α → σ → List ι) : σ → List α → List ι
  | _, [] => []
  | s, a :: as => logged step emit s a ++ log step emit (exec step s a) as

/-- Apply the records one after another. -/
def replay (apply : ι → β → β) (b : β) (records : List ι) : β :=
  records.foldl (fun b i => apply i b) b

@[simp] theorem replay_nil (apply : ι → β → β) (b : β) : replay apply b [] = b := rfl

@[simp] theorem replay_cons (apply : ι → β → β) (b : β) (i : ι) (is : List ι) :
    replay apply b (i :: is) = replay apply (apply i b) is := rfl

theorem replay_append (apply : ι → β → β) (b : β) (is js : List ι) :
    replay apply b (is ++ js) = replay apply (replay apply b is) js := List.foldl_append

/-- Records that do not concern the image leave it as it was. -/
theorem replay_ignored {apply : ι → β → β} {is : List ι} (h : ∀ i ∈ is, ∀ b, apply i b = b)
    (b : β) : replay apply b is = b := by
  induction is with
  | nil => rfl
  | cons i is ih =>
    rw [replay_cons, h i List.mem_cons_self b]
    exact ih fun j hj => h j (List.mem_cons_of_mem i hj)

variable {step : α → σ → Except ε σ} {emit : α → σ → List ι}

theorem logged_ok {s s' : σ} {a : α} (h : step a s = .ok s') :
    logged step emit s a = emit a s := by
  simp [logged, h]

theorem logged_error {s : σ} {a : α} {e : ε} (h : step a s = .error e) :
    logged step emit s a = [] := by
  simp [logged, h]

/-- The replay rule: an image that follows each success follows every run. -/
theorem replay_log (apply : ι → β → β) (view : σ → β) {C : σ → α → Prop}
    (follows : ∀ a s s', C s a → step a s = .ok s' →
      replay apply (view s) (emit a s) = view s') {s : σ} {as : List α} (h : Along step C s as) :
    replay apply (view s) (log step emit s as) = view (run step s as) := by
  induction as generalizing s with
  | nil => rfl
  | cons a as ih =>
    obtain ⟨ha, has⟩ := h
    have hstep : replay apply (view s) (logged step emit s a) = view (exec step s a) := by
      cases hs : step a s with
      | ok s' => rw [logged_ok hs, exec_ok hs, follows a s s' ha hs]
      | error e => rw [logged_error hs, exec_error hs, replay_nil]
    rw [log, replay_append, hstep, ih has, run_cons]

/-! ## Tallies -/

/-- The sum over the successes of a run of `f` at the state each meets. -/
def tally (step : α → σ → Except ε σ) (f : α → σ → ℕ) (s : σ) (as : List α) : ℕ :=
  (log step (fun a s => [f a s]) s as).sum

@[simp] theorem tally_nil (f : α → σ → ℕ) (s : σ) : tally step f s [] = 0 := rfl

theorem tally_cons_ok {f : α → σ → ℕ} {s s' : σ} {a : α} (h : step a s = .ok s') (as : List α) :
    tally step f s (a :: as) = f a s + tally step f s' as := by
  rw [tally, log, logged_ok h, exec_ok h]
  rfl

theorem tally_cons_error {f : α → σ → ℕ} {s : σ} {a : α} {e : ε} (h : step a s = .error e)
    (as : List α) : tally step f s (a :: as) = tally step f s as := by
  rw [tally, log, logged_error h, exec_error h]
  rfl

theorem tally_eq_zero {f : α → σ → ℕ} (h : ∀ a s, f a s = 0) (s : σ) (as : List α) :
    tally step f s as = 0 := by
  induction as generalizing s with
  | nil => rfl
  | cons a as ih =>
    cases hs : step a s with
    | ok s' => rw [tally_cons_ok hs, h, ih]
    | error e => rw [tally_cons_error hs, ih]

theorem tally_add (f g : α → σ → ℕ) (s : σ) (as : List α) :
    tally step (fun a s => f a s + g a s) s as = tally step f s as + tally step g s as := by
  induction as generalizing s with
  | nil => rfl
  | cons a as ih =>
    cases hs : step a s with
    | ok s' =>
      simp only [tally_cons_ok hs, ih]
      omega
    | error e => simp only [tally_cons_error hs, ih]

/-- The accounting rule: what each success gives out and takes in adds up over a run. -/
theorem tally_balance (φ : σ → ℕ) (given taken : α → σ → ℕ) {C : σ → α → Prop}
    (moves : ∀ a s s', C s a → step a s = .ok s' → φ s' + given a s = φ s + taken a s) {s : σ}
    {as : List α} (h : Along step C s as) :
    φ (run step s as) + tally step given s as = φ s + tally step taken s as := by
  induction as generalizing s with
  | nil => rfl
  | cons a as ih =>
    obtain ⟨ha, has⟩ := h
    cases hs : step a s with
    | ok s' =>
      have hone := moves a s s' ha hs
      rw [exec_ok hs] at has
      have hrest := ih has
      rw [run_cons, exec_ok hs, tally_cons_ok hs, tally_cons_ok hs]
      omega
    | error e =>
      rw [exec_error hs] at has
      rw [run_cons, exec_error hs, tally_cons_error hs, tally_cons_error hs]
      exact ih has

/-- The spending rule: what each success can cost at most adds up over a run. -/
theorem tally_bound (φ : σ → ℕ) (cost : α → σ → ℕ)
    (costs : ∀ a s s', step a s = .ok s' → φ s ≤ φ s' + cost a s) (s : σ) (as : List α) :
    φ s ≤ φ (run step s as) + tally step cost s as := by
  induction as generalizing s with
  | nil => exact Nat.le_refl _
  | cons a as ih =>
    cases hs : step a s with
    | ok s' =>
      have hone := costs a s s' hs
      have hrest := ih s'
      rw [run_cons, exec_ok hs, tally_cons_ok hs]
      omega
    | error e =>
      rw [run_cons, exec_error hs, tally_cons_error hs]
      exact ih s

end OnreApp.Library.Log
