import Mathlib.Tactic.Common

/-!
# Outcomes of fallible code

A fallible function returns `Except ε α`. The inversion lemmas take a `do` block
apart one statement at a time, in both directions: what a success says about each
statement, and where an error can have come from.
-/
namespace OnreApp.Library.Outcome

universe u v
variable {ε : Type u} {α β : Type v}

/-- Stop with `e` unless `c` holds. -/
def require (c : Prop) [Decidable c] (e : ε) : Except ε PUnit.{v+1} :=
  if c then .ok ⟨⟩ else .error e

/-- Stop with `e` where there is no value. -/
def okOr (o : Option α) (e : ε) : Except ε α :=
  match o with
  | some a => .ok a
  | none => .error e

/-- The value that a proof of `p` gives access to, or `e`. -/
def guarded (p : Prop) [Decidable p] (f : p → α) (e : ε) : Except ε α :=
  if h : p then .ok (f h) else .error e

@[simp] theorem bind_eq_ok (x : Except ε α) (f : α → Except ε β) (b : β) :
    (x >>= f) = .ok b ↔ ∃ a, x = .ok a ∧ f a = .ok b := by
  cases x <;> simp [bind, Except.bind]

theorem bind_eq_error (x : Except ε α) (f : α → Except ε β) (e : ε) :
    (x >>= f) = .error e ↔ x = .error e ∨ ∃ a, x = .ok a ∧ f a = .error e := by
  cases x <;> simp [bind, Except.bind]

theorem exists_ok_of_toBool {x : Except ε α} (h : x.toBool = true) : ∃ a, x = .ok a := by
  cases x with
  | ok a => exact ⟨a, rfl⟩
  | error e => cases h

theorem exists_ok_of_map {x : Except ε α} {f : α → β} {b : β} (h : x.toOption.map f = some b) :
    ∃ a, x = .ok a ∧ f a = b := by
  cases x with
  | ok a => exact ⟨a, rfl, Option.some.inj h⟩
  | error e => cases h

theorem toOption_eq_some {x : Except ε α} {a : α} : x.toOption = some a ↔ x = .ok a := by
  cases x <;> simp [Except.toOption]

theorem eq_error_of_map {x : Except ε α} {f : α → β} {e : ε} (h : x.map f = .error e) :
    x = .error e := by
  cases x with
  | ok a => cases h
  | error e' => exact congrArg _ (Except.error.inj h)

/-- Two computations that are one computation `y`, each behind a condition of its own, have the
same outcome unless `y` succeeds and one condition holds alone. -/
theorem same_outcome_iff {y : Except ε β} {x₁ x₂ : Except ε α} {f : α → β} {p₁ p₂ : Prop}
    (h₁ : ∀ b, (∃ a, x₁ = .ok a ∧ f a = b) ↔ p₁ ∧ y = .ok b)
    (h₂ : ∀ b, (∃ a, x₂ = .ok a ∧ f a = b) ↔ p₂ ∧ y = .ok b) :
    x₁.toOption.map f = x₂.toOption.map f ↔ ((∃ b, y = .ok b) → (p₁ ↔ p₂)) := by
  have hsome : ∀ (x : Except ε α) (b : β),
      x.toOption.map f = some b ↔ ∃ a, x = .ok a ∧ f a = b := by
    intro x b
    cases x with
    | ok a => simp [Except.toOption]
    | error e => simp [Except.toOption]
  constructor
  · intro heq hy
    obtain ⟨b, hb⟩ := hy
    have hboth : (p₁ ∧ y = .ok b) ↔ (p₂ ∧ y = .ok b) := by
      rw [← h₁, ← h₂, ← hsome, ← hsome, heq]
    exact ⟨fun hp => (hboth.mp ⟨hp, hb⟩).1, fun hp => (hboth.mpr ⟨hp, hb⟩).1⟩
  · intro hiff
    apply Option.ext
    intro b
    rw [hsome, hsome, h₁, h₂]
    constructor
    · intro h
      exact ⟨(hiff ⟨b, h.2⟩).mp h.1, h.2⟩
    · intro h
      exact ⟨(hiff ⟨b, h.2⟩).mpr h.1, h.2⟩

@[simp] theorem ok_bind (a : α) (f : α → Except ε β) : ((.ok a : Except ε α) >>= f) = f a := rfl

@[simp] theorem error_bind (e : ε) (f : α → Except ε β) :
    ((.error e : Except ε α) >>= f) = .error e := rfl

@[simp] theorem pure_eq_ok (a b : α) : (pure a : Except ε α) = .ok b ↔ a = b :=
  ⟨fun h => Except.ok.inj h, fun h => congrArg _ h⟩

theorem pure_ne_error (a : α) (e : ε) : (pure a : Except ε α) ≠ .error e := by
  intro h; cases h

@[simp] theorem require_eq_ok (c : Prop) [Decidable c] (e : ε) (u : PUnit.{v+1}) :
    require c e = .ok u ↔ c := by
  unfold require
  split <;> simp_all

theorem require_eq_error (c : Prop) [Decidable c] (e e' : ε) :
    (require c e : Except ε PUnit.{v+1}) = .error e' ↔ ¬ c ∧ e = e' := by
  unfold require
  split <;> simp_all

@[simp] theorem okOr_eq_ok (o : Option α) (e : ε) (a : α) : okOr o e = .ok a ↔ o = some a := by
  cases o <;> simp [okOr]

theorem okOr_eq_error (o : Option α) (e e' : ε) :
    okOr o e = .error e' ↔ o = none ∧ e = e' := by
  cases o <;> simp [okOr]

@[simp] theorem guarded_eq_ok (p : Prop) [Decidable p] (f : p → α) (e : ε) (a : α) :
    guarded p f e = .ok a ↔ ∃ h : p, f h = a := by
  unfold guarded
  split
  · next h => exact ⟨fun ha => ⟨h, Except.ok.inj ha⟩, fun ⟨_, ha⟩ => congrArg _ ha⟩
  · next h => exact iff_of_false (fun ha => nomatch ha) fun ⟨hp, _⟩ => h hp

/-! ## Errors a computation never returns -/

/-- `x` does not fail with `e`; it may fail otherwise. -/
def Avoids (e : ε) (x : Except ε α) : Prop := x ≠ .error e

theorem avoids_ok (e : ε) (a : α) : Avoids e (.ok a : Except ε α) := by
  intro h; cases h

theorem avoids_pure (e : ε) (a : α) : Avoids e (pure a : Except ε α) := pure_ne_error a e

theorem avoids_error {e e' : ε} (h : e' ≠ e) : Avoids e (.error e' : Except ε α) :=
  fun he => h (Except.error.inj he)

theorem avoids_require (c : Prop) [Decidable c] {e e' : ε} (h : e' ≠ e) :
    Avoids e (require c e' : Except ε PUnit.{v+1}) :=
  fun he => h ((require_eq_error c e' e).mp he).2

theorem avoids_okOr (o : Option α) {e e' : ε} (h : e' ≠ e) : Avoids e (okOr o e') :=
  fun he => h ((okOr_eq_error o e' e).mp he).2

theorem avoids_okOr_of_some {o : Option α} {a : α} (h : o = some a) (e e' : ε) :
    Avoids e (okOr o e') := by
  rw [h]
  exact avoids_ok e a

theorem avoids_guarded (p : Prop) [Decidable p] (f : p → α) {e e' : ε} (h : e' ≠ e) :
    Avoids e (guarded p f e') := by
  unfold guarded
  split
  · exact avoids_ok _ _
  · exact avoids_error h

/-- The rest of a block only runs on the value its first statement returned. -/
theorem avoids_bind {e : ε} {x : Except ε α} {f : α → Except ε β}
    (hx : Avoids e x) (hf : ∀ a, x = .ok a → Avoids e (f a)) : Avoids e (x >>= f) := by
  intro h
  rcases (bind_eq_error x f e).mp h with he | ⟨a, ha, he⟩
  · exact hx he
  · exact hf a ha he

end OnreApp.Library.Outcome
