import OnreApp.Tokens.Books
import OnreApp.Tokens.Conservation

/-!
# What balances are worth

Every balance weighed by what one unit of it is worth, and added up. Bookings change that
worth by what they move.
-/
namespace OnreApp.Tokens

open Library.Balance Library.FiniteStore

/-- What all balances are worth where a unit in account `a` is worth `f a`. -/
def Ledger.worth (f : Ata → ℕ) (l : Ledger) : ℕ := total l.accounts fun a n => n * f a

/-- Weighing is additive in the balances. -/
noncomputable def weighing (f : Ata → ℕ) : (Ata →₀ ℕ) →+ ℕ :=
  Finsupp.liftAddHom fun a => AddMonoidHom.mulRight (f a)

section Worth

variable {l l' : Ledger} {f : Ata → ℕ} {b : Books}

theorem weighing_single (f : Ata → ℕ) (a : Ata) (n : ℕ) :
    weighing f (Finsupp.single a n) = n * f a := by
  rw [weighing, Finsupp.liftAddHom_apply_single]
  rfl

theorem worth_eq (f : Ata → ℕ) (l : Ledger) : l.worth f = weighing f l.balances := by
  have hsum : weighing f l.balances = ∑ a ∈ l.accounts.keys, l.amount a * f a := by
    rw [weighing, Finsupp.liftAddHom_apply]
    exact Finsupp.onFinset_sum _ fun a => Nat.zero_mul _
  rw [hsum, Ledger.worth, total]
  apply Finset.sum_congr rfl
  intro a _
  unfold weigh Ledger.amount
  cases l.accounts.lookup a with
  | some n => rfl
  | none => exact (Nat.zero_mul _).symm

/-- Two accounts lose and two gain. -/
theorem worth_flow {a₁ a₂ b₁ b₂ : Ata} {m₁ m₂ n₁ n₂ : ℕ}
    (h : Flow (Pi.single a₁ m₁ + Pi.single a₂ m₂) (Pi.single b₁ n₁ + Pi.single b₂ n₂) l.amount
      l'.amount) (f : Ata → ℕ) :
    l'.worth f + (m₁ * f a₁ + m₂ * f a₂) = l.worth f + (n₁ * f b₁ + n₂ * f b₂) := by
  have hsingle : ∀ (x y : Ata) (i j : ℕ), (Pi.single x i + Pi.single y j : Ata → ℕ) =
      ⇑(Finsupp.single x i + Finsupp.single y j) := by
    intro x y i j
    rw [Finsupp.coe_add, Finsupp.single_eq_pi_single, Finsupp.single_eq_pi_single]
  rw [hsingle, hsingle] at h
  have hbalances : l'.balances + (Finsupp.single a₁ m₁ + Finsupp.single a₂ m₂) =
      l.balances + (Finsupp.single b₁ n₁ + Finsupp.single b₂ n₂) := DFunLike.coe_injective h
  have hworth := congrArg (weighing f) hbalances
  simp only [AddMonoidHom.map_add, weighing_single, ← worth_eq] at hworth
  exact hworth

theorem worth_congr (h : l'.amount = l.amount) (f : Ata → ℕ) : l'.worth f = l.worth f := by
  have hbalances : l'.balances = l.balances := DFunLike.coe_injective h
  rw [worth_eq, worth_eq, hbalances]

theorem worth_of_transfer {source destination : Ata} {amount : ℕ}
    (h : Moves (.transfer source destination amount) l l') (f : Ata → ℕ) :
    l'.worth f + amount * f source = l.worth f + amount * f destination := by
  have hflow : Flow (Pi.single source amount + Pi.single source 0)
      (Pi.single destination amount + Pi.single destination 0) l.amount l'.amount :=
    h.balances.congr (by simp [Movement.transfer]) (by simp [Movement.transfer])
  have hworth := worth_flow hflow f
  omega

theorem worth_of_issue {destination : Ata} {amount : ℕ} (h : Moves (.issue destination amount) l l')
    (f : Ata → ℕ) : l'.worth f = l.worth f + amount * f destination := by
  have hflow : Flow (Pi.single destination 0 + Pi.single destination 0)
      (Pi.single destination amount + Pi.single destination 0) l.amount l'.amount :=
    h.balances.congr (by simp [Movement.issue]) (by simp [Movement.issue])
  have hworth := worth_flow hflow f
  omega

end Worth

end OnreApp.Tokens
