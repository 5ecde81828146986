import Mathlib.Algebra.Order.Floor.Div
import OnreApp.Constants
import OnreApp.Library.FiniteStore

/-!
# The token ledger

Mints and associated token accounts of the two token programs, with the calls the
program makes into them. Accounts are unfrozen and undelegated. Token accounts other
than associated ones are not tracked: whatever they hold is the part of a mint's supply
that the tracked balances leave over. That the tracked balances never exceed the supply
is a field of the ledger, so no credit can overflow a 64-bit balance.
-/
namespace OnreApp.Tokens

open Library.FiniteStore

inductive TokenProgram
  | token | token2022
  deriving DecidableEq

structure TransferFee where
  epoch : UInt64
  maximumFee : UInt64
  transferFeeBasisPoints : UInt16
  deriving DecidableEq

/-- The transfer-fee extension of a Token-2022 mint. -/
structure TransferFeeConfig where
  olderTransferFee : TransferFee
  newerTransferFee : TransferFee
  deriving DecidableEq

def TransferFeeConfig.getEpochFee (c : TransferFeeConfig) (epoch : UInt64) : TransferFee :=
  if c.newerTransferFee.epoch ≤ epoch then c.newerTransferFee else c.olderTransferFee

structure Mint where
  tokenProgram : TokenProgram
  decimals : UInt8
  mintAuthority : Option Pubkey
  supply : UInt64
  transferFeeConfig : Option TransferFeeConfig
  deriving DecidableEq

/-- What a transfer of `amount` withholds from its destination in `epoch`. -/
def Mint.transferFee (m : Mint) (epoch : UInt64) (amount : ℕ) : ℕ :=
  match m.transferFeeConfig with
  | none => 0
  | some c =>
    let fee := c.getEpochFee epoch
    min ((amount * fee.transferFeeBasisPoints.toNat) ⌈/⌉ maxBasisPoints) fee.maximumFee.toNat

/-- The associated token account of `wallet` for `mint` under a token program. -/
structure Ata where
  wallet : Pubkey
  mint : Pubkey
  tokenProgram : TokenProgram
  deriving DecidableEq

/-- The calls into a token program that move or create tokens or authority. -/
inductive TokenCpi
  | transferChecked (source destination : Ata) (amount : UInt64)
  | mintToChecked (mint : Pubkey) (destination : Ata) (amount : UInt64)
  | burnChecked (source : Ata) (amount : UInt64)
  | setAuthority (mint newAuthority : Pubkey)
  deriving DecidableEq

/-- What the accounts of one mint hold together. -/
def held (accounts : Store Ata ℕ) (mint : Pubkey) : ℕ :=
  total accounts fun a n => if a.mint = mint then n else 0

/-- Mints and balances, with the record of the calls made so far (latest first). -/
structure Ledger where
  mints : Store Pubkey Mint
  accounts : Store Ata ℕ
  cpis : List TokenCpi
  mint_exists : ∀ a n, accounts.lookup a = some n →
    ∃ m, mints.lookup a.mint = some m ∧ m.tokenProgram = a.tokenProgram
  backed : ∀ k m, mints.lookup k = some m → held accounts k ≤ m.supply.toNat

namespace Ledger

def HasAccount (l : Ledger) (a : Ata) : Prop := (l.accounts.lookup a).isSome = true

instance (l : Ledger) (a : Ata) : Decidable (l.HasAccount a) :=
  inferInstanceAs (Decidable ((l.accounts.lookup a).isSome = true))

/-- The balance of an account, zero where there is none. -/
def amount (l : Ledger) (a : Ata) : ℕ := (l.accounts.lookup a).getD 0

def supply (l : Ledger) (k : Pubkey) : ℕ := (l.mints.lookup k).elim 0 (·.supply.toNat)

def mintAuthority (l : Ledger) (k : Pubkey) : Option Pubkey :=
  ((l.mints.lookup k).map (·.mintAuthority)).join

def transferFee (l : Ledger) (epoch : UInt64) (k : Pubkey) (n : ℕ) : ℕ :=
  (l.mints.lookup k).elim 0 (·.transferFee epoch n)

theorem lookup_of_hasAccount {l : Ledger} {a : Ata} (h : l.HasAccount a) :
    l.accounts.lookup a = some (l.amount a) := by
  obtain ⟨n, hn⟩ := Option.isSome_iff_exists.mp h
  rw [amount, hn, Option.getD_some]

theorem exists_of_mintAuthority {l : Ledger} {k a : Pubkey} (h : l.mintAuthority k = some a) :
    ∃ m, l.mints.lookup k = some m := by
  cases hm : l.mints.lookup k with
  | none => rw [mintAuthority, hm] at h; cases h
  | some m => exact ⟨m, rfl⟩

theorem amount_of_not_hasAccount {l : Ledger} {a : Ata} (h : ¬ l.HasAccount a) :
    l.amount a = 0 := by
  rw [HasAccount, Bool.not_eq_true, Option.isSome_eq_false_iff, Option.isNone_iff_eq_none] at h
  rw [amount, h, Option.getD_none]

end Ledger

/-! ## Balances add up to at most the supply -/

theorem weigh_held (s : Store Ata ℕ) (mint : Pubkey) (a : Ata) :
    weigh (fun a n => if a.mint = mint then n else 0) s a =
      if a.mint = mint then (s.lookup a).getD 0 else 0 := by
  unfold weigh
  cases s.lookup a <;> simp

theorem held_insert (s : Store Ata ℕ) (mint : Pubkey) (a : Ata) (n : ℕ) :
    held (s.insert a n) mint + (if a.mint = mint then (s.lookup a).getD 0 else 0) =
      held s mint + (if a.mint = mint then n else 0) := by
  rw [← weigh_held]
  exact total_insert s _ a n

theorem amount_le_held (s : Store Ata ℕ) (a : Ata) : (s.lookup a).getD 0 ≤ held s a.mint := by
  have h := weigh_le_total s (fun b n => if b.mint = a.mint then n else 0) a
  rwa [weigh_held, if_pos rfl] at h

namespace Ledger

/-- Writing the balance of an account keeps every account under a mint. -/
theorem mint_exists_insert {l : Ledger} {a b : Ata} {m n : ℕ} (ha : l.HasAccount a)
    (hb : (l.accounts.insert a m).lookup b = some n) :
    ∃ k, l.mints.lookup b.mint = some k ∧ k.tokenProgram = b.tokenProgram := by
  rw [lookup_insert_eq] at hb
  split at hb
  · next he => exact he ▸ l.mint_exists _ _ (lookup_of_hasAccount ha)
  · exact l.mint_exists b n hb

theorem amount_le_supply (l : Ledger) (a : Ata) : l.amount a ≤ l.supply a.mint := by
  by_cases h : l.HasAccount a
  · obtain ⟨m, hm, _⟩ := l.mint_exists a _ (lookup_of_hasAccount h)
    rw [supply, hm]
    exact (amount_le_held l.accounts a).trans (l.backed _ m hm)
  · rw [amount_of_not_hasAccount h]
    exact Nat.zero_le _

abbrev CanTransfer (l : Ledger) (source destination : Ata) (authority : Pubkey)
    (n : UInt64) : Prop :=
  l.HasAccount source ∧ l.HasAccount destination ∧ source.mint = destination.mint ∧
    authority = source.wallet ∧ n.toNat ≤ l.amount source

/-- `transfer_checked`: the source pays `n`, the destination gets it less the mint's fee. A
transfer to itself only checks. -/
def transfer (l : Ledger) (epoch : UInt64) (source destination : Ata) (authority : Pubkey)
    (n : UInt64) (h : l.CanTransfer source destination authority n) : Ledger where
  mints := l.mints
  accounts :=
    if source = destination then l.accounts
    else (l.accounts.insert source (l.amount source - n.toNat)).insert destination
      (l.amount destination + (n.toNat - l.transferFee epoch source.mint n.toNat))
  cpis := .transferChecked source destination n :: l.cpis
  mint_exists := by
    intro a k hk
    split at hk
    · exact l.mint_exists a k hk
    · rw [lookup_insert_eq] at hk
      split at hk
      · next he => exact he ▸ l.mint_exists _ _ (lookup_of_hasAccount h.2.1)
      · exact mint_exists_insert h.1 hk
  backed := by
    intro k m hm
    have hb := l.backed k m hm
    split
    · exact hb
    · next hne =>
      have h1 := held_insert l.accounts k source (l.amount source - n.toNat)
      have h2 := held_insert (l.accounts.insert source (l.amount source - n.toNat)) k destination
        (l.amount destination + (n.toNat - l.transferFee epoch source.mint n.toNat))
      rw [lookup_insert_eq, if_neg (Ne.symm hne)] at h2
      change _ + (if _ then l.amount source else 0) = _ at h1
      change _ + (if _ then l.amount destination else 0) = _ at h2
      have hn := h.2.2.2.2
      by_cases hk : destination.mint = k
      · rw [if_pos (h.2.2.1.trans hk), if_pos (h.2.2.1.trans hk)] at h1
        rw [if_pos hk, if_pos hk] at h2
        omega
      · rw [if_neg (h.2.2.1 ▸ hk), if_neg (h.2.2.1 ▸ hk)] at h1
        rw [if_neg hk, if_neg hk] at h2
        omega

abbrev CanMintTo (l : Ledger) (mint : Pubkey) (destination : Ata) (authority : Pubkey)
    (n : UInt64) : Prop :=
  l.HasAccount destination ∧ destination.mint = mint ∧
    l.mintAuthority mint = some authority ∧ l.supply mint + n.toNat < 2 ^ 64

/-- `mint_to_checked`. -/
def mintTo (l : Ledger) (mint : Pubkey) (destination : Ata) (authority : Pubkey)
    (n : UInt64) (h : l.CanMintTo mint destination authority n) : Ledger where
  mints := modify l.mints mint fun m => { m with supply := m.supply + n }
  accounts := l.accounts.insert destination (l.amount destination + n.toNat)
  cpis := .mintToChecked mint destination n :: l.cpis
  mint_exists := by
    intro a k hk
    exact exists_lookup_modify (fun _ hp => hp) (mint_exists_insert h.1 hk)
  backed := by
    intro k m hm
    have hi := held_insert l.accounts k destination (l.amount destination + n.toNat)
    change _ + (if _ then l.amount destination else 0) = _ at hi
    rw [lookup_modify] at hm
    split at hm
    · next he =>
      obtain ⟨m', hm', rfl⟩ := Option.map_eq_some_iff.mp hm
      have hb := l.backed _ m' hm'
      have hs := h.2.2.2
      rw [supply, hm'] at hs
      change m'.supply.toNat + n.toNat < 2 ^ 64 at hs
      rw [UInt64.toNat_add, Nat.mod_eq_of_lt hs]
      rw [← he] at hb
      split at hi <;> omega
    · next hne =>
      have hb := l.backed k m hm
      rw [h.2.1, if_neg (Ne.symm hne), if_neg (Ne.symm hne)] at hi
      omega

abbrev CanBurn (l : Ledger) (source : Ata) (authority : Pubkey) (n : UInt64) : Prop :=
  l.HasAccount source ∧ authority = source.wallet ∧ n.toNat ≤ l.amount source

/-- `burn_checked`. -/
def burn (l : Ledger) (source : Ata) (authority : Pubkey) (n : UInt64)
    (h : l.CanBurn source authority n) : Ledger where
  mints := modify l.mints source.mint fun m => { m with supply := m.supply - n }
  accounts := l.accounts.insert source (l.amount source - n.toNat)
  cpis := .burnChecked source n :: l.cpis
  mint_exists := by
    intro a k hk
    exact exists_lookup_modify (fun _ hp => hp) (mint_exists_insert h.1 hk)
  backed := by
    intro k m hm
    have hi := held_insert l.accounts k source (l.amount source - n.toNat)
    change _ + (if _ then l.amount source else 0) = _ at hi
    rw [lookup_modify] at hm
    split at hm
    · next he =>
      obtain ⟨m', hm', rfl⟩ := Option.map_eq_some_iff.mp hm
      have hb := l.backed _ m' hm'
      have hle := (h.2.2.trans (amount_le_held l.accounts source)).trans hb
      rw [UInt64.toNat_sub_of_le _ _ (UInt64.le_iff_toNat_le.mpr hle)]
      rw [← he] at hb
      rw [if_pos he.symm, if_pos he.symm] at hi
      have hn := h.2.2
      omega
    · next hne =>
      have hb := l.backed k m hm
      rw [if_neg (Ne.symm hne), if_neg (Ne.symm hne)] at hi
      omega

abbrev CanSetAuthority (l : Ledger) (program : TokenProgram) (mint current : Pubkey) : Prop :=
  (l.mints.lookup mint).map (fun m => (m.tokenProgram, m.mintAuthority)) =
    some (program, some current)

/-- `set_authority` of a mint's `MintTokens` authority. -/
def setAuthority (l : Ledger) (mint new : Pubkey) : Ledger where
  mints := modify l.mints mint fun m => { m with mintAuthority := some new }
  accounts := l.accounts
  cpis := .setAuthority mint new :: l.cpis
  mint_exists := by
    intro a k hk
    exact exists_lookup_modify (fun _ hp => hp) (l.mint_exists a k hk)
  backed := by
    intro k m hm
    rw [lookup_modify] at hm
    split at hm
    · next he =>
      obtain ⟨m', hm', rfl⟩ := Option.map_eq_some_iff.mp hm
      exact he ▸ l.backed _ m' hm'
    · exact l.backed k m hm

abbrev CanCreate (l : Ledger) (a : Ata) : Prop :=
  l.accounts.lookup a = none ∧
    (l.mints.lookup a.mint).map (·.tokenProgram) = some a.tokenProgram

/-- The associated-token program's `create`. -/
def create (l : Ledger) (a : Ata) (h : l.CanCreate a) : Ledger where
  mints := l.mints
  accounts := l.accounts.insert a 0
  cpis := l.cpis
  mint_exists := by
    intro b k hk
    rw [lookup_insert_eq] at hk
    split at hk
    · next he => exact he ▸ Option.map_eq_some_iff.mp h.2
    · exact l.mint_exists b k hk
  backed := by
    intro k m hm
    have hi := held_insert l.accounts k a 0
    have hb := l.backed k m hm
    rw [h.1] at hi
    simp only [Option.getD_none, ite_self] at hi
    omega

/-! ## What a call changes -/

section Frames

variable {l : Ledger} {epoch : UInt64} {source destination a : Ata} {mint authority : Pubkey}
  {n : UInt64}

theorem hasAccount_transfer (h : l.CanTransfer source destination authority n) :
    (l.transfer epoch source destination authority n h).HasAccount a ↔ l.HasAccount a := by
  unfold HasAccount transfer
  split
  · rfl
  · simp only [lookup_insert_eq]
    split
    · next he => rw [he]; exact iff_of_true rfl h.2.1
    · split
      · next he => rw [he]; exact iff_of_true rfl h.1
      · rfl

theorem amount_transfer (h : l.CanTransfer source destination authority n) :
    (l.transfer epoch source destination authority n h).amount a =
      if source = destination then l.amount a
      else if a = destination then
        l.amount destination + (n.toNat - l.transferFee epoch source.mint n.toNat)
      else if a = source then l.amount source - n.toNat
      else l.amount a := by
  unfold transfer
  conv_lhs => unfold amount
  split
  · rfl
  · simp only [lookup_insert_eq]
    split
    · rfl
    · split <;> rfl

theorem hasAccount_mintTo (h : l.CanMintTo mint destination authority n) :
    (l.mintTo mint destination authority n h).HasAccount a ↔ l.HasAccount a := by
  unfold HasAccount mintTo
  simp only [lookup_insert_eq]
  split
  · next he => rw [he]; exact iff_of_true rfl h.1
  · rfl

theorem amount_mintTo (h : l.CanMintTo mint destination authority n) :
    (l.mintTo mint destination authority n h).amount a =
      if a = destination then l.amount destination + n.toNat else l.amount a := by
  unfold mintTo
  conv_lhs => unfold amount
  simp only [lookup_insert_eq]
  split <;> rfl

theorem hasAccount_burn (h : l.CanBurn source authority n) :
    (l.burn source authority n h).HasAccount a ↔ l.HasAccount a := by
  unfold HasAccount burn
  simp only [lookup_insert_eq]
  split
  · next he => rw [he]; exact iff_of_true rfl h.1
  · rfl

theorem amount_burn (h : l.CanBurn source authority n) :
    (l.burn source authority n h).amount a =
      if a = source then l.amount source - n.toNat else l.amount a := by
  unfold burn
  conv_lhs => unfold amount
  simp only [lookup_insert_eq]
  split <;> rfl

theorem hasAccount_create (h : l.CanCreate source) :
    (l.create source h).HasAccount a ↔ a = source ∨ l.HasAccount a := by
  unfold HasAccount create
  simp only [lookup_insert_eq]
  split
  · next he => simp [he]
  · next he => simp [he]

/-- A fresh account holds what the missing one counted for: nothing. -/
theorem amount_create (h : l.CanCreate source) : (l.create source h).amount a = l.amount a := by
  unfold create amount
  simp only [lookup_insert_eq]
  split
  · next he => rw [he, h.1]; rfl
  · rfl

theorem supply_mintTo (h : l.CanMintTo mint destination authority n) (k : Pubkey) :
    (l.mintTo mint destination authority n h).supply k =
      if k = mint then l.supply mint + n.toNat else l.supply k := by
  refine (elim_lookup_modify _ _ _ _ _ _).trans ?_
  split
  · have hlt := h.2.2.2
    obtain ⟨m, hm⟩ := exists_of_mintAuthority h.2.2.1
    rw [supply, hm] at hlt ⊢
    exact (UInt64.toNat_add _ _).trans (Nat.mod_eq_of_lt hlt)
  · rfl

theorem supply_burn (h : l.CanBurn source authority n) (k : Pubkey) :
    (l.burn source authority n h).supply k =
      if k = source.mint then l.supply source.mint - n.toNat else l.supply k := by
  refine (elim_lookup_modify _ _ _ _ _ _).trans ?_
  split
  · have hle := h.2.2.trans (l.amount_le_supply source)
    rw [supply] at hle ⊢
    cases hm : l.mints.lookup source.mint with
    | none => exact (Nat.zero_sub _).symm
    | some m =>
      rw [hm] at hle
      exact UInt64.toNat_sub_of_le _ _ (UInt64.le_iff_toNat_le.mpr hle)
  · rfl

theorem supply_burn_le (h : l.CanBurn source authority n) {k : Pubkey} :
    (l.burn source authority n h).supply k ≤ l.supply k := by
  rw [supply_burn h]
  split
  · next he => exact he ▸ Nat.sub_le _ _
  · exact le_rfl

theorem supply_setAuthority {new k : Pubkey} : (l.setAuthority mint new).supply k = l.supply k := by
  refine (elim_lookup_modify _ _ _ _ _ _).trans ?_
  split
  · next he => rw [he]; rfl
  · rfl

end Frames

end Ledger

end OnreApp.Tokens
