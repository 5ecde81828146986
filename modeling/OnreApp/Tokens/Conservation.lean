import Mathlib.Data.Finsupp.Basic
import OnreApp.Library.Balance
import OnreApp.Tokens.Ledger

/-!
# What the balances of a mint add up to

All balances at once are one finitely supported function, and the sum of a mint's balances is
that function pushed down to the mints. So what flows between accounts flows between sums.
-/
namespace OnreApp.Tokens.Ledger

open Library.Balance Library.FiniteStore Finset

/-- All balances at once. -/
noncomputable def balances (l : Ledger) : Ata →₀ ℕ :=
  Finsupp.onFinset l.accounts.keys l.amount (by
    intro a ha
    rw [Finmap.mem_keys]
    by_contra hnone
    rw [← Finmap.lookup_eq_none] at hnone
    rw [amount, hnone] at ha
    exact ha rfl)

theorem held_eq (l : Ledger) (k : Pubkey) :
    held l.accounts k = l.balances.mapDomain Ata.mint k := by
  have hsum : l.balances.mapDomain Ata.mint k =
      ∑ a ∈ l.accounts.keys, if a.mint = k then l.amount a else 0 := by
    rw [Finsupp.mapDomain, Finsupp.sum_apply]
    show (Finsupp.onFinset _ _ _).sum _ = _
    rw [Finsupp.onFinset_sum _ fun a => by rw [Finsupp.single_zero, Finsupp.zero_apply]]
    exact sum_congr rfl fun a _ => Finsupp.single_apply
  rw [hsum, held, total]
  exact sum_congr rfl fun a _ => weigh_held l.accounts k a

/-- A flow of balances is a flow of every mint's sum. -/
theorem held_flow {l l' : Ledger} {out inc : Ata →₀ ℕ}
    (h : Flow (⇑out) (⇑inc) l.amount l'.amount) (k : Pubkey) :
    Flow (out.mapDomain Ata.mint k) (inc.mapDomain Ata.mint k) (held l.accounts k)
      (held l'.accounts k) := by
  have hb : l'.balances + out = l.balances + inc := DFunLike.coe_injective h
  show held l'.accounts k + _ = held l.accounts k + _
  rw [held_eq, held_eq, ← Finsupp.add_apply, ← Finsupp.add_apply, ← Finsupp.mapDomain_add,
    ← Finsupp.mapDomain_add, hb]

/-- The same for what two accounts lose and two gain. -/
theorem held_flow_pairs {l l' : Ledger} {a b c d : Ata} {m n p q : ℕ}
    (h : Flow (Pi.single a m + Pi.single b n) (Pi.single c p + Pi.single d q) l.amount l'.amount)
    (k : Pubkey) :
    Flow (((if a.mint = k then m else 0) + if b.mint = k then n else 0))
      ((if c.mint = k then p else 0) + if d.mint = k then q else 0) (held l.accounts k)
      (held l'.accounts k) := by
  have hsingle : ∀ (x y : Ata) (i j : ℕ), (Pi.single x i + Pi.single y j : Ata → ℕ) =
      ⇑(Finsupp.single x i + Finsupp.single y j) := by
    intro x y i j
    rw [Finsupp.coe_add, Finsupp.single_eq_pi_single, Finsupp.single_eq_pi_single]
  have hmap : ∀ (x y : Ata) (i j : ℕ),
      (Finsupp.single x i + Finsupp.single y j).mapDomain Ata.mint k =
        (if x.mint = k then i else 0) + if y.mint = k then j else 0 := by
    intro x y i j
    rw [Finsupp.mapDomain_add, Finsupp.mapDomain_single, Finsupp.mapDomain_single,
      Finsupp.add_apply, Finsupp.single_apply, Finsupp.single_apply]
  rw [hsingle, hsingle] at h
  rw [← hmap, ← hmap]
  exact held_flow h k

end OnreApp.Tokens.Ledger
