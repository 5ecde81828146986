import OnreApp.Tokens.Calls

/-!
# Sequences of calls

`Calls allow l l'`: the ledger went from `l` to `l'` by creating accounts and by calls that
all satisfy `allow`. Bounding the calls of an instruction this way bounds what it can do:
which balances fall, which change at all, which mints and authorities stay.
-/
namespace OnreApp.Tokens

open Library.FiniteStore Library.Outcome

namespace TokenCpi

/-- The account a call takes from. -/
def debits : TokenCpi → Ata → Prop
  | transferChecked source _ _, a => a = source
  | burnChecked source _, a => a = source
  | _, _ => False

/-- The account a call gives to. -/
def credits : TokenCpi → Ata → Prop
  | transferChecked _ destination _, a => a = destination
  | mintToChecked _ destination _, a => a = destination
  | _, _ => False

/-- The call creates tokens of the mint. -/
def mints : TokenCpi → Pubkey → Prop
  | mintToChecked mint _ _, k => k = mint
  | _, _ => False

def setsAuthority : TokenCpi → Pubkey → Prop
  | setAuthority mint _, k => k = mint
  | _, _ => False

/-- No authority is handed over, only wallets in `debited` pay and only wallets in
`credited` receive. -/
def Within (debited credited : List Pubkey) : TokenCpi → Prop
  | transferChecked source destination _ =>
    source.wallet ∈ debited ∧ destination.wallet ∈ credited
  | mintToChecked _ destination _ => destination.wallet ∈ credited
  | burnChecked source _ => source.wallet ∈ debited
  | setAuthority _ _ => False

theorem Within.mono {debited debited' credited credited' : List Pubkey}
    (hd : debited ⊆ debited') (hc : credited ⊆ credited') :
    ∀ {c : TokenCpi}, c.Within debited credited → c.Within debited' credited'
  | transferChecked .., h => ⟨hd h.1, hc h.2⟩
  | mintToChecked .., h => hc h
  | burnChecked .., h => hd h
  | setAuthority .., h => h

theorem Within.debits_mem {debited credited : List Pubkey} {a : Ata} :
    ∀ {c : TokenCpi}, c.Within debited credited → c.debits a → a.wallet ∈ debited
  | transferChecked .., h, hd => hd ▸ h.1
  | burnChecked .., h, hd => hd ▸ h
  | mintToChecked .., _, hd => hd.elim
  | setAuthority .., h, _ => h.elim

theorem Within.credits_mem {debited credited : List Pubkey} {a : Ata} :
    ∀ {c : TokenCpi}, c.Within debited credited → c.credits a → a.wallet ∈ credited
  | transferChecked .., h, hc => hc ▸ h.2
  | mintToChecked .., h, hc => hc ▸ h
  | burnChecked .., _, hc => hc.elim
  | setAuthority .., h, _ => h.elim

theorem Within.not_setsAuthority {debited credited : List Pubkey} (k : Pubkey) :
    ∀ {c : TokenCpi}, c.Within debited credited → ¬ c.setsAuthority k
  | setAuthority .., h => h.elim
  | transferChecked .., _ => id
  | mintToChecked .., _ => id
  | burnChecked .., _ => id

/-- `Within`, and no token is created. -/
def MovesWithin (debited credited : List Pubkey) : TokenCpi → Prop
  | transferChecked source destination _ =>
    source.wallet ∈ debited ∧ destination.wallet ∈ credited
  | burnChecked source _ => source.wallet ∈ debited
  | _ => False

theorem MovesWithin.within {debited credited : List Pubkey} :
    ∀ {c : TokenCpi}, c.MovesWithin debited credited → c.Within debited credited
  | transferChecked .., h => h
  | burnChecked .., h => h
  | mintToChecked .., h => h.elim
  | setAuthority .., h => h

theorem MovesWithin.not_mints {debited credited : List Pubkey} {k : Pubkey} :
    ∀ {c : TokenCpi}, c.MovesWithin debited credited → ¬ c.mints k
  | mintToChecked .., h => h.elim
  | transferChecked .., _ => id
  | burnChecked .., _ => id
  | setAuthority .., _ => id

end TokenCpi

/-- The record of a mint, apart from its supply. -/
def Mint.terms (m : Mint) : TokenProgram × UInt8 × Option Pubkey × Option TransferFeeConfig :=
  (m.tokenProgram, m.decimals, m.mintAuthority, m.transferFeeConfig)

inductive Calls (allow : TokenCpi → Prop) : Ledger → Ledger → Prop
  | refl (l : Ledger) : Calls allow l l
  | create {l l' : Ledger} (trace : Calls allow l l') {a : Ata} (h : l'.CanCreate a) :
    Calls allow l (l'.create a h)
  | transfer {l l' : Ledger} (trace : Calls allow l l') {epoch : UInt64} {source destination : Ata}
    {authority : Pubkey} {n : UInt64} (h : l'.CanTransfer source destination authority n)
    (allowed : allow (.transferChecked source destination n)) :
    Calls allow l (l'.transfer epoch source destination authority n h)
  | mintTo {l l' : Ledger} (trace : Calls allow l l') {mint : Pubkey} {destination : Ata}
    {authority : Pubkey} {n : UInt64} (h : l'.CanMintTo mint destination authority n)
    (allowed : allow (.mintToChecked mint destination n)) :
    Calls allow l (l'.mintTo mint destination authority n h)
  | burn {l l' : Ledger} (trace : Calls allow l l') {source : Ata} {authority : Pubkey}
    {n : UInt64} (h : l'.CanBurn source authority n) (allowed : allow (.burnChecked source n)) :
    Calls allow l (l'.burn source authority n h)
  | setAuthority {l l' : Ledger} (trace : Calls allow l l') {mint new : Pubkey}
    (allowed : allow (.setAuthority mint new)) : Calls allow l (l'.setAuthority mint new)

namespace Calls

variable {allow allow' : TokenCpi → Prop} {l l₁ l₂ l' : Ledger}

theorem mono (h : Calls allow l l') (himp : ∀ c, allow c → allow' c) : Calls allow' l l' := by
  induction h with
  | refl => exact .refl _
  | create _ hc ih => exact ih.create hc
  | transfer _ hc ha ih => exact ih.transfer hc (himp _ ha)
  | mintTo _ hc ha ih => exact ih.mintTo hc (himp _ ha)
  | burn _ hc ha ih => exact ih.burn hc (himp _ ha)
  | setAuthority _ ha ih => exact ih.setAuthority (himp _ ha)

theorem trans (h : Calls allow l l₁) (h' : Calls allow l₁ l₂) : Calls allow l l₂ := by
  induction h' with
  | refl => exact h
  | create _ hc ih => exact ih.create hc
  | transfer _ hc ha ih => exact ih.transfer hc ha
  | mintTo _ hc ha ih => exact ih.mintTo hc ha
  | burn _ hc ha ih => exact ih.burn hc ha
  | setAuthority _ ha ih => exact ih.setAuthority ha

theorem of_initIfNeeded {a : Ata} (h : l.initIfNeeded a = .ok l') : Calls allow l l' := by
  rcases Ledger.initIfNeeded_eq_ok.mp h with ⟨_, rfl⟩ | ⟨hc, rfl⟩
  · exact .refl _
  · exact (Calls.refl l).create hc

/-- The record of the calls grows by the calls made, all of them allowed. -/
theorem cpis (h : Calls allow l l') :
    ∃ new, l'.cpis = new ++ l.cpis ∧ ∀ c ∈ new, allow c := by
  induction h with
  | refl => exact ⟨[], rfl, fun _ hc => absurd hc List.not_mem_nil⟩
  | create _ _ ih => exact ih
  | transfer _ _ ha ih | mintTo _ _ ha ih | burn _ _ ha ih | setAuthority _ ha ih =>
    obtain ⟨new, he, hall⟩ := ih
    exact ⟨_ :: new, congrArg _ he, List.forall_mem_cons.mpr ⟨ha, hall⟩⟩

/-- A balance that no call takes from does not fall. -/
theorem amount_le (h : Calls allow l l') {a : Ata} (ha : ∀ c, allow c → ¬ c.debits a) :
    l.amount a ≤ l'.amount a := by
  induction h with
  | refl => exact le_rfl
  | create _ hc ih => exact ih.trans (Ledger.amount_create hc).ge
  | transfer _ hc hallow ih =>
    have hne : a ≠ _ := ha _ hallow
    rw [Ledger.amount_transfer hc]
    split
    · exact ih
    · split
      · next he => exact ih.trans (he ▸ Nat.le_add_right _ _)
      · exact ih
  | mintTo _ hc _ ih =>
    rw [Ledger.amount_mintTo hc]
    split
    · next he => exact ih.trans (he ▸ Nat.le_add_right _ _)
    · exact ih
  | burn _ hc hallow ih =>
    have hne : a ≠ _ := ha _ hallow
    rw [Ledger.amount_burn hc, if_neg hne]
    exact ih
  | setAuthority _ _ ih => exact ih

/-- A balance that no call touches stays. -/
theorem amount_eq (h : Calls allow l l') {a : Ata}
    (ha : ∀ c, allow c → ¬ c.debits a ∧ ¬ c.credits a) : l'.amount a = l.amount a := by
  induction h with
  | refl => rfl
  | create _ hc ih => exact (Ledger.amount_create hc).trans ih
  | transfer _ hc hallow ih =>
    have hd : a ≠ _ := (ha _ hallow).1
    have hcr : a ≠ _ := (ha _ hallow).2
    rw [Ledger.amount_transfer hc, if_neg hcr, if_neg hd, ite_self]
    exact ih
  | mintTo _ hc hallow ih =>
    have hcr : a ≠ _ := (ha _ hallow).2
    rw [Ledger.amount_mintTo hc, if_neg hcr]
    exact ih
  | burn _ hc hallow ih =>
    have hd : a ≠ _ := (ha _ hallow).1
    rw [Ledger.amount_burn hc, if_neg hd]
    exact ih
  | setAuthority _ _ ih => exact ih

theorem hasAccount (h : Calls allow l l') {a : Ata} (ha : l.HasAccount a) : l'.HasAccount a := by
  induction h with
  | refl => exact ha
  | create _ hc ih => exact (Ledger.hasAccount_create hc).mpr (.inr ih)
  | transfer _ hc _ ih => exact (Ledger.hasAccount_transfer hc).mpr ih
  | mintTo _ hc _ ih => exact (Ledger.hasAccount_mintTo hc).mpr ih
  | burn _ hc _ ih => exact (Ledger.hasAccount_burn hc).mpr ih
  | setAuthority _ _ ih => exact ih

/-- What no call can change about a mint. -/
theorem mint_fixed (h : Calls allow l l') (k : Pubkey) :
    (l'.mints.lookup k).map (fun m => (m.tokenProgram, m.decimals, m.transferFeeConfig)) =
      (l.mints.lookup k).map fun m => (m.tokenProgram, m.decimals, m.transferFeeConfig) := by
  induction h with
  | refl => rfl
  | create _ _ ih | transfer _ _ _ ih => exact ih
  | mintTo _ _ _ ih | burn _ _ _ ih | setAuthority _ _ ih =>
    rw [← ih]
    exact map_lookup_modify _ _ _ fun _ => rfl

theorem transferFee_eq (h : Calls allow l l') (epoch : UInt64) (k : Pubkey) (n : ℕ) :
    l'.transferFee epoch k n = l.transferFee epoch k n := by
  have hfee : ∀ l : Ledger, l.transferFee epoch k n =
      ((l.mints.lookup k).map fun m => (m.tokenProgram, m.decimals, m.transferFeeConfig)).elim 0
        fun c => Mint.transferFee ⟨.token, 0, none, 0, c.2.2⟩ epoch n := by
    intro l
    rw [Ledger.transferFee]
    cases l.mints.lookup k <;> rfl
  rw [hfee, hfee, h.mint_fixed]

/-- Calls that hand no authority over change a mint's supply only. -/
theorem terms_eq (h : Calls allow l l') {k : Pubkey} (hk : ∀ c, allow c → ¬ c.setsAuthority k) :
    (l'.mints.lookup k).map Mint.terms = (l.mints.lookup k).map Mint.terms := by
  induction h with
  | refl => rfl
  | create _ _ ih | transfer _ _ _ ih => exact ih
  | mintTo _ _ _ ih | burn _ _ _ ih =>
    rw [← ih]
    exact map_lookup_modify _ _ _ fun _ => rfl
  | setAuthority _ hallow ih =>
    have hne : k ≠ _ := hk _ hallow
    rw [← ih]
    exact congrArg (Option.map _) ((lookup_modify _ _ _ _).trans (if_neg hne))

theorem mintAuthority_eq (h : Calls allow l l') {k : Pubkey}
    (hk : ∀ c, allow c → ¬ c.setsAuthority k) : l'.mintAuthority k = l.mintAuthority k := by
  have hread : ∀ l : Ledger, l.mintAuthority k =
      ((l.mints.lookup k).map Mint.terms).bind fun t => t.2.2.1 := by
    intro l
    rw [Ledger.mintAuthority]
    cases l.mints.lookup k <;> rfl
  rw [hread, hread, h.terms_eq hk]

/-- Without a call that mints it, a supply does not grow. -/
theorem supply_le (h : Calls allow l l') {k : Pubkey} (hk : ∀ c, allow c → ¬ c.mints k) :
    l'.supply k ≤ l.supply k := by
  induction h with
  | refl => exact le_rfl
  | create _ _ ih | transfer _ _ _ ih => exact ih
  | mintTo _ hc hallow ih =>
    have hne : k ≠ _ := hk _ hallow
    rw [Ledger.supply_mintTo hc, if_neg hne]
    exact ih
  | burn _ hc _ ih => exact (Ledger.supply_burn_le hc).trans ih
  | setAuthority _ _ ih => exact Ledger.supply_setAuthority.le.trans ih

end Calls

/-- Every transfer credits what it debits. -/
def Ledger.Exact (l : Ledger) : Prop := ∀ epoch k n, l.transferFee epoch k n = 0

theorem Ledger.Exact.calls {allow : TokenCpi → Prop} {l l' : Ledger} (h : l.Exact)
    (hc : Calls allow l l') : l'.Exact := by
  intro epoch k n
  rw [hc.transferFee_eq]
  exact h epoch k n

/-! ## Tokens created between two ledgers -/

/-- A call between `l` and `l'` created a positive amount of the mint. -/
def Minted (l l' : Ledger) (k : Pubkey) : Prop :=
  ∃ new destination n, l'.cpis = new ++ l.cpis ∧ .mintToChecked k destination n ∈ new ∧ 0 < n

theorem Calls.not_minted {allow : TokenCpi → Prop} {l l' : Ledger} (h : Calls allow l l')
    {k : Pubkey} (hk : ∀ c, allow c → ¬ c.mints k) : ¬ Minted l l' k := by
  rintro ⟨new, destination, n, he, hmem, _⟩
  obtain ⟨new', he', hall⟩ := h.cpis
  rw [List.append_cancel_right (he.symm.trans he')] at hmem
  exact hk _ (hall _ hmem) rfl

theorem Minted.split {allow allow' : TokenCpi → Prop} {l l₁ l₂ : Ledger} (h : Calls allow l l₁)
    (h' : Calls allow' l₁ l₂) {k : Pubkey} (hm : Minted l l₂ k) :
    Minted l l₁ k ∨ Minted l₁ l₂ k := by
  obtain ⟨new, destination, n, he, hmem, hpos⟩ := hm
  obtain ⟨new₁, he₁, _⟩ := h.cpis
  obtain ⟨new₂, he₂, _⟩ := h'.cpis
  rw [he₁, ← List.append_assoc] at he₂
  rw [List.append_cancel_right (he.symm.trans he₂), List.mem_append] at hmem
  rcases hmem with hmem | hmem
  · refine .inr ⟨new₂, destination, n, ?_, hmem, hpos⟩
    rw [he₁, ← List.append_assoc]
    exact he₂
  · exact .inl ⟨new₁, destination, n, he₁, hmem, hpos⟩

/-- Whatever mint gained tokens between the two ledgers ends with a supply within the cap. -/
def MintedWithin (cap : ℕ) (l l' : Ledger) : Prop := ∀ k, Minted l l' k → l'.supply k ≤ cap

theorem MintedWithin.of_calls {allow : TokenCpi → Prop} {cap : ℕ} {l l' : Ledger}
    (h : Calls allow l l') (hno : ∀ c k, allow c → ¬ c.mints k) : MintedWithin cap l l' :=
  fun k hm => absurd hm (h.not_minted fun c hc => hno c k hc)

/-- Calls that mint nothing, before and after, keep what was minted within the cap. -/
theorem MintedWithin.surround {before after : TokenCpi → Prop} {cap : ℕ} {l l₁ l₂ l' : Ledger}
    (h : MintedWithin cap l₁ l₂) (hpre : Calls before l l₁) (hb : ∀ c k, before c → ¬ c.mints k)
    {allow : TokenCpi → Prop} (hmid : Calls allow l₁ l₂) (hpost : Calls after l₂ l')
    (ha : ∀ c k, after c → ¬ c.mints k) : MintedWithin cap l l' := by
  intro k hm
  rcases hm.split hpre (Calls.trans (hmid.mono fun c hc => Or.inl hc)
    (hpost.mono fun c hc => Or.inr hc) : Calls (fun c => allow c ∨ after c) l₁ l') with hm | hm
  · exact absurd hm (hpre.not_minted fun c hc => hb c k hc)
  · rcases hm.split hmid hpost with hm | hm
    · exact (hpost.supply_le fun c hc => ha c k hc).trans (h k hm)
    · exact absurd hm (hpost.not_minted fun c hc => ha c k hc)

/-! ## Calls within two sets of wallets -/

section Within

variable {debited credited : List Pubkey} {l l' : Ledger}
  (h : Calls (TokenCpi.Within debited credited) l l')
include h

theorem Calls.amount_le_of_notMem {a : Ata} (ha : a.wallet ∉ debited) :
    l.amount a ≤ l'.amount a := by
  exact h.amount_le fun c hc hd => ha (hc.debits_mem hd)

theorem Calls.amount_eq_of_notMem {a : Ata} (ha : a.wallet ∉ debited)
    (ha' : a.wallet ∉ credited) : l'.amount a = l.amount a := by
  exact h.amount_eq
    fun c hc => ⟨fun hd => ha (hc.debits_mem hd), fun hcr => ha' (hc.credits_mem hcr)⟩

theorem Calls.terms_eq_of_within (k : Pubkey) :
    (l'.mints.lookup k).map Mint.terms = (l.mints.lookup k).map Mint.terms := by
  exact h.terms_eq fun _ hc => hc.not_setsAuthority k

theorem Calls.mintAuthority_eq_of_within (k : Pubkey) : l'.mintAuthority k = l.mintAuthority k := by
  exact h.mintAuthority_eq fun _ hc => hc.not_setsAuthority k

end Within

end OnreApp.Tokens
