import OnreApp.Library.Balance
import OnreApp.Tokens.CallTrace

/-!
# The books of a ledger

What an outside bookkeeper keeps of the token programs: every balance, every supply, and of
each mint its authority and its token program. Bookings are double entries: what is lost and
burned is booked beside what is gained and minted.
-/
namespace OnreApp.Tokens

open Library.Balance Library.FiniteStore

structure Books where
  balances : Ata → ℕ
  supply : Pubkey → ℕ
  mintAuthority : Pubkey → Option Pubkey
  /-- The token program of a mint; any one where there is no mint. -/
  program : Pubkey → TokenProgram

/-- What one booking moves. -/
structure Movement where
  lost : Ata → ℕ
  gained : Ata → ℕ
  burned : Pubkey → ℕ
  minted : Pubkey → ℕ

namespace Movement

protected def none : Movement := ⟨0, 0, 0, 0⟩

def transfer (source destination : Ata) (amount : ℕ) : Movement :=
  ⟨Pi.single source amount, Pi.single destination amount, 0, 0⟩

def issue (destination : Ata) (amount : ℕ) : Movement :=
  ⟨0, Pi.single destination amount, 0, Pi.single destination.mint amount⟩

end Movement

namespace Books

def account (b : Books) (wallet mint : Pubkey) : Ata := ⟨wallet, mint, b.program mint⟩

def post (b : Books) (m : Movement) : Books :=
  { b with
    balances := fun a => b.balances a + m.gained a - m.lost a
    supply := fun k => b.supply k + m.minted k - m.burned k }

@[simp] theorem post_none (b : Books) : b.post Movement.none = b := rfl

/-- Hand the authority over a mint to another key. -/
def handOver (b : Books) (mint new : Pubkey) : Books :=
  { b with mintAuthority := Function.update b.mintAuthority mint (some new) }

end Books

/-- The books of a ledger. -/
def booksOf (l : Ledger) : Books where
  balances := l.amount
  supply := l.supply
  mintAuthority := l.mintAuthority
  program := fun k => (l.mints.lookup k).elim .token (·.tokenProgram)

section BooksOf

variable {l l' : Ledger} {allow : TokenCpi → Prop}

/-- An account that exists is under its mint's token program. -/
theorem account_eq {a : Ata} (h : l.HasAccount a) :
    (booksOf l).account a.wallet a.mint = a := by
  obtain ⟨m, hm, hp⟩ := l.mint_exists a _ (Ledger.lookup_of_hasAccount h)
  have hprogram : (booksOf l).program a.mint = a.tokenProgram := by
    show (l.mints.lookup a.mint).elim .token (·.tokenProgram) = a.tokenProgram
    rw [hm]
    exact hp
  rw [Books.account, hprogram]

theorem program_of_calls (h : Calls allow l l') : (booksOf l').program = (booksOf l).program := by
  funext k
  have hread : ∀ l : Ledger, (booksOf l).program k =
      ((l.mints.lookup k).map fun m => (m.tokenProgram, m.decimals, m.transferFeeConfig)).elim
        .token (·.1) := by
    intro l
    show (l.mints.lookup k).elim .token (·.tokenProgram) = _
    cases l.mints.lookup k <;> rfl
  rw [hread, hread, h.mint_fixed]

/-- The same account, found in the ledger after some calls. -/
theorem account_eq_of_calls {a : Ata} (h : Calls allow l l') (ha : l'.HasAccount a) :
    (booksOf l).account a.wallet a.mint = a := by
  have haccount := account_eq ha
  rwa [Books.account, program_of_calls h] at haccount

/-- The ledger changes by one booking, and no mint changes hands. -/
structure Moves (m : Movement) (l l' : Ledger) : Prop where
  balances : Flow m.lost m.gained l.amount l'.amount
  supply : Flow m.burned m.minted l.supply l'.supply
  mintAuthority : l'.mintAuthority = l.mintAuthority
  program : (booksOf l').program = (booksOf l).program

/-- Calls that hand no authority over are booked as what flows. -/
theorem Moves.of_calls {m : Movement} (h : Calls allow l l')
    (hallow : ∀ c k, allow c → ¬ c.setsAuthority k)
    (hbalances : Flow m.lost m.gained l.amount l'.amount)
    (hsupply : Flow m.burned m.minted l.supply l'.supply) : Moves m l l' where
  balances := hbalances
  supply := hsupply
  mintAuthority := funext fun k => h.mintAuthority_eq fun c hc => hallow c k hc
  program := program_of_calls h

theorem Moves.refl (l : Ledger) : Moves .none l l := ⟨.refl _, .refl _, rfl, rfl⟩

/-- Opening accounts is no booking. -/
theorem Moves.of_opening (h : Calls (fun _ => False) l l') (hsupply : l'.supply = l.supply) :
    Moves .none l l' := by
  have hamount : l'.amount = l.amount := funext fun a => h.amount_eq fun _ hc => hc.elim
  refine .of_calls h (fun _ _ hc => hc.elim) ?_ ?_
  · rw [hamount]
    exact .refl _
  · rw [hsupply]
    exact .refl _

theorem Moves.after_opening {m : Movement} {l₁ : Ledger} (hopen : Moves .none l l₁)
    (h : Moves m l₁ l') : Moves m l l' where
  balances := (hopen.balances.trans h.balances).congr (zero_add _) (zero_add _)
  supply := (hopen.supply.trans h.supply).congr (zero_add _) (zero_add _)
  mintAuthority := h.mintAuthority.trans hopen.mintAuthority
  program := h.program.trans hopen.program

theorem Moves.books {m : Movement} (h : Moves m l l') : booksOf l' = (booksOf l).post m := by
  have hamount : l'.amount = fun a => l.amount a + m.gained a - m.lost a := by
    funext a
    have ha := h.balances.apply a
    omega
  have htotal : l'.supply = fun k => l.supply k + m.minted k - m.burned k := by
    funext k
    have hk := h.supply.apply k
    omega
  have hprogram := h.program
  unfold booksOf at hprogram ⊢
  rw [hamount, htotal, h.mintAuthority]
  exact congrArg (Books.mk _ _ _) hprogram

theorem booksOf_setAuthority {mint new : Pubkey} {m : Mint} (h : l.mints.lookup mint = some m) :
    booksOf (l.setAuthority mint new) = (booksOf l).handOver mint new := by
  have hauthority : (l.setAuthority mint new).mintAuthority =
      Function.update l.mintAuthority mint (some new) := by
    funext k
    rw [Function.update_apply]
    show ((_ : Option Mint).map (·.mintAuthority)).join = _
    rw [show (l.setAuthority mint new).mints.lookup k = _ from lookup_modify _ _ _ _]
    split
    · rw [h]
      rfl
    · rfl
  have hcalls : Calls (fun _ => True) l (l.setAuthority mint new) :=
    (Calls.refl l).setAuthority trivial
  have hprogram : (booksOf (l.setAuthority mint new)).program = (booksOf l).program :=
    program_of_calls hcalls
  have hsupply : (l.setAuthority mint new).supply = l.supply :=
    funext fun _ => Ledger.supply_setAuthority
  unfold booksOf at hprogram ⊢
  rw [hauthority, hsupply]
  exact congrArg (Books.mk _ _ _) hprogram

end BooksOf

end OnreApp.Tokens
