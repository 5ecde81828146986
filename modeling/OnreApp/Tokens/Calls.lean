import OnreApp.Error
import OnreApp.Library.Outcome
import OnreApp.Tokens.Ledger

/-!
# Calls into the token programs

The fallible forms of the ledger's calls, and the account loads that precede them. A
load returns the record as it is at that moment: an instruction goes on reading it after
its own calls have changed the ledger.
-/
namespace OnreApp.Tokens

open Library.Outcome

/-- An `InterfaceAccount<Mint>` as loaded. -/
structure MintAccount extends Mint where
  key : Pubkey
  deriving DecidableEq

namespace Ledger

def loadMint (l : Ledger) (key : Pubkey) : Except Error MintAccount := do
  let m ← okOr (l.mints.lookup key) (.anchor .accountNotInitialized)
  pure { m with key }

/-- An associated token account that has to exist. -/
def loadAta (l : Ledger) (a : Ata) : Except Error Unit :=
  require (l.HasAccount a) (.anchor .accountNotInitialized)

/-- `init_if_needed` of an associated token account. -/
def initIfNeeded (l : Ledger) (a : Ata) : Except Error Ledger :=
  if l.HasAccount a then .ok l else guarded (l.CanCreate a) (l.create a) .tokenProgram

def transferChecked (l : Ledger) (epoch : UInt64) (source destination : Ata) (authority : Pubkey)
    (n : UInt64) : Except Error Ledger :=
  guarded (l.CanTransfer source destination authority n)
    (l.transfer epoch source destination authority n) .tokenProgram

def mintToChecked (l : Ledger) (mint : Pubkey) (destination : Ata) (authority : Pubkey)
    (n : UInt64) : Except Error Ledger :=
  guarded (l.CanMintTo mint destination authority n) (l.mintTo mint destination authority n)
    .tokenProgram

def burnChecked (l : Ledger) (source : Ata) (authority : Pubkey) (n : UInt64) :
    Except Error Ledger :=
  guarded (l.CanBurn source authority n) (l.burn source authority n) .tokenProgram

def setMintAuthority (l : Ledger) (program : TokenProgram) (mint current new : Pubkey) :
    Except Error Ledger :=
  guarded (l.CanSetAuthority program mint current) (fun _ => l.setAuthority mint new)
    .tokenProgram

variable {l l' : Ledger} {epoch : UInt64} {source destination a : Ata}
  {mint authority current new : Pubkey} {program : TokenProgram} {n : UInt64}

@[simp] theorem loadMint_eq_ok {m : MintAccount} :
    l.loadMint mint = .ok m ↔ l.mints.lookup mint = some m.toMint ∧ m.key = mint := by
  simp only [loadMint, bind_eq_ok, okOr_eq_ok, pure_eq_ok]
  constructor
  · rintro ⟨r, hr, rfl⟩
    exact ⟨hr, rfl⟩
  · rintro ⟨hr, rfl⟩
    exact ⟨m.toMint, hr, rfl⟩

@[simp] theorem loadAta_eq_ok {u : Unit} : l.loadAta a = .ok u ↔ l.HasAccount a :=
  require_eq_ok _ _ _

@[simp] theorem transferChecked_eq_ok :
    l.transferChecked epoch source destination authority n = .ok l' ↔
      ∃ h, l.transfer epoch source destination authority n h = l' :=
  guarded_eq_ok _ _ _ _

@[simp] theorem mintToChecked_eq_ok : l.mintToChecked mint destination authority n = .ok l' ↔
    ∃ h, l.mintTo mint destination authority n h = l' :=
  guarded_eq_ok _ _ _ _

@[simp] theorem burnChecked_eq_ok : l.burnChecked source authority n = .ok l' ↔
    ∃ h, l.burn source authority n h = l' :=
  guarded_eq_ok _ _ _ _

@[simp] theorem setMintAuthority_eq_ok :
    l.setMintAuthority program mint current new = .ok l' ↔
      l.CanSetAuthority program mint current ∧ l.setAuthority mint new = l' := by
  rw [setMintAuthority, guarded_eq_ok, exists_prop]

/-- Either the account was there already or it is created empty. -/
theorem initIfNeeded_eq_ok : l.initIfNeeded a = .ok l' ↔
    l.HasAccount a ∧ l = l' ∨ ∃ h : l.CanCreate a, l.create a h = l' := by
  unfold initIfNeeded
  split
  · next ha =>
    have hn : ¬ l.CanCreate a := fun hc => by
      rw [HasAccount, hc.1] at ha
      exact Bool.false_ne_true ha
    simp [ha, hn]
  · next ha => simp [ha]

theorem hasAccount_initIfNeeded (h : l.initIfNeeded a = .ok l') (b : Ata) :
    l'.HasAccount b ↔ b = a ∨ l.HasAccount b := by
  rcases initIfNeeded_eq_ok.mp h with ⟨ha, rfl⟩ | ⟨hc, rfl⟩
  · constructor
    · exact .inr
    · intro hor
      rcases hor with rfl | hold
      · exact ha
      · exact hold
  · exact hasAccount_create hc

theorem supply_initIfNeeded (h : l.initIfNeeded a = .ok l') : l'.supply = l.supply := by
  rcases initIfNeeded_eq_ok.mp h with ⟨_, rfl⟩ | ⟨_, rfl⟩
  · rfl
  · rfl

/-- Only the token program of the account has to be the mint's. -/
theorem initIfNeeded_ok_iff : (∃ l', l.initIfNeeded a = .ok l') ↔
    (l.mints.lookup a.mint).map (·.tokenProgram) = some a.tokenProgram := by
  simp only [initIfNeeded_eq_ok]
  constructor
  · intro h
    obtain ⟨_, ⟨ha, _⟩ | ⟨hc, _⟩⟩ := h
    · obtain ⟨m, hm, hp⟩ := l.mint_exists a _ (lookup_of_hasAccount ha)
      exact Option.map_eq_some_iff.mpr ⟨m, hm, hp⟩
    · exact hc.2
  · intro hp
    cases ha : l.accounts.lookup a with
    | none => exact ⟨_, .inr ⟨⟨ha, hp⟩, rfl⟩⟩
    | some n => exact ⟨l, .inl ⟨Option.isSome_of_eq_some ha, rfl⟩⟩

/-! ## Errors -/

theorem loadMint_avoids {e : Error} (h : .anchor .accountNotInitialized ≠ e) :
    Avoids e (l.loadMint mint) :=
  avoids_bind (avoids_okOr _ h) fun _ _ => avoids_pure _ _

theorem loadAta_avoids {e : Error} (h : .anchor .accountNotInitialized ≠ e) :
    Avoids e (l.loadAta a) :=
  avoids_require _ h

theorem initIfNeeded_avoids {e : Error} (h : .tokenProgram ≠ e) :
    Avoids e (l.initIfNeeded a) := by
  unfold initIfNeeded
  split
  · exact avoids_ok _ _
  · exact avoids_guarded _ _ h

theorem transferChecked_avoids {e : Error} (h : .tokenProgram ≠ e) :
    Avoids e (l.transferChecked epoch source destination authority n) :=
  avoids_guarded _ _ h

theorem mintToChecked_avoids {e : Error} (h : .tokenProgram ≠ e) :
    Avoids e (l.mintToChecked mint destination authority n) :=
  avoids_guarded _ _ h

theorem burnChecked_avoids {e : Error} (h : .tokenProgram ≠ e) :
    Avoids e (l.burnChecked source authority n) :=
  avoids_guarded _ _ h

end Ledger

end OnreApp.Tokens
