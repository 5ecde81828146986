import OnreApp.Library.Checked
import OnreApp.Library.Outcome

/-!
# Fallible computations in order

One computation lies below another if it succeeds wherever the other does, with a result that
is no greater. Checked additions and multiplications keep the order, since less overflows
less, and so does a block of statements that each keep it.
-/
namespace OnreApp.Library.Ordered

open Library.Checked Library.Outcome

universe u v
variable {ε : Type u} {α β : Type v}

/-- Wherever `y` succeeds, so does `x`, with at most its result. -/
def Below [LE α] (x y : Except ε α) : Prop := ∀ b, y = .ok b → ∃ a, x = .ok a ∧ a ≤ b

theorem Below.ok [LE α] {a b : α} (h : a ≤ b) : Below (.ok a : Except ε α) (.ok b) := by
  intro c hc
  exact ⟨a, rfl, Except.ok.inj hc ▸ h⟩

theorem Below.pure [LE α] {a b : α} (h : a ≤ b) : Below (pure a : Except ε α) (pure b) := .ok h

/-- The rest of a block only runs on what its first statement returned. -/
theorem Below.bind [LE α] [LE β] {x y : Except ε α} {f g : α → Except ε β} (h : Below x y)
    (hf : ∀ a b, x = .ok a → y = .ok b → a ≤ b → Below (f a) (g b)) :
    Below (x >>= f) (y >>= g) := by
  intro c hc
  obtain ⟨b, hy, hg⟩ := (bind_eq_ok _ _ _).mp hc
  obtain ⟨a, hx, hle⟩ := h b hy
  obtain ⟨c', hf', hle'⟩ := hf a b hx hy hle c hg
  exact ⟨c', (bind_eq_ok _ _ _).mpr ⟨a, hx, hf'⟩, hle'⟩

theorem Below.require_bind [LE β] {p q : Prop} [Decidable p] [Decidable q] {e e' : ε}
    {f g : PUnit.{v+1} → Except ε β} (h : q → p) (hf : q → Below (f ⟨⟩) (g ⟨⟩)) :
    Below (require p e >>= f) (require q e' >>= g) := by
  intro c hc
  obtain ⟨_, hrequire, hg⟩ := (bind_eq_ok _ _ _).mp hc
  have hq := (require_eq_ok _ _ _).mp hrequire
  obtain ⟨a, hfa, hle⟩ := hf hq c hg
  exact ⟨a, (bind_eq_ok _ _ _).mpr ⟨⟨⟩, (require_eq_ok _ _ _).mpr (h hq), hfa⟩, hle⟩

section Checked

variable {w a a' b b' : ℕ} {e e' : ε}

theorem below_checkedAdd (ha : a ≤ a') (hb : b ≤ b') :
    Below (okOr (checkedAdd w a b) e) (okOr (checkedAdd w a' b') e') := by
  intro c hc
  simp only [okOr_eq_ok, checkedAdd_eq_some] at hc ⊢
  obtain ⟨hlt, rfl⟩ := hc
  have hle : a + b ≤ a' + b' := Nat.add_le_add ha hb
  exact ⟨_, ⟨hle.trans_lt hlt, rfl⟩, hle⟩

theorem below_checkedMul (ha : a ≤ a') (hb : b ≤ b') :
    Below (okOr (checkedMul w a b) e) (okOr (checkedMul w a' b') e') := by
  intro c hc
  simp only [okOr_eq_ok, checkedMul_eq_some] at hc ⊢
  obtain ⟨hlt, rfl⟩ := hc
  have hle : a * b ≤ a' * b' := Nat.mul_le_mul ha hb
  exact ⟨_, ⟨hle.trans_lt hlt, rfl⟩, hle⟩

/-- A subtraction keeps the order only where the lesser computation does not go below zero. -/
theorem below_checkedSub (hb : b ≤ a) (ha : a ≤ a') :
    Below (okOr (checkedSub a b) e) (okOr (checkedSub a' b) e') := by
  intro c hc
  simp only [okOr_eq_ok, checkedSub_eq_some] at hc ⊢
  obtain ⟨_, rfl⟩ := hc
  exact ⟨_, ⟨hb, rfl⟩, Nat.sub_le_sub_right ha b⟩

end Checked

end OnreApp.Library.Ordered
