import OnreApp.Library.Balance
import OnreApp.Utils.TokenRouting

/-!
# Exchanges of tokens, exactly

Where transfers withhold nothing, what each step of an exchange moves between all the
balances at once, what it does to the supplies, and exactly when it succeeds.
-/
namespace OnreApp.Tokens.Ledger

/-- Transfers of the mint withhold nothing in this epoch. -/
def FreeOfFee (l : Ledger) (epoch : UInt64) (k : Pubkey) : Prop :=
  ∀ n, l.transferFee epoch k n = 0

theorem FreeOfFee.calls {allow : TokenCpi → Prop} {l l' : Ledger} {epoch : UInt64} {k : Pubkey}
    (h : l.FreeOfFee epoch k) (hc : Calls allow l l') : l'.FreeOfFee epoch k := by
  intro n
  rw [hc.transferFee_eq]
  exact h n

end OnreApp.Tokens.Ledger

namespace OnreApp.Utils

open Library.Balance Library.Checked Library.Outcome Tokens

variable {l l' : Ledger} {epoch : UInt64} {source destination : Ata}
  {authority mintAuthorityPda : Pubkey} {mint : MintAccount} {amount maxSupply : UInt64}
  {p : ExecTokenOpsParams}

theorem toNat_eq_zero_of_not_pos (h : ¬ 0 < amount) : amount.toNat = 0 :=
  Nat.eq_zero_of_not_pos fun hpos => h (UInt64.lt_iff_toNat_lt.mpr hpos)

/-- A mint that passes the transfer-fee check is free of fees. -/
theorem freeOfFee_of_hasTransferFee (hm : l.mints.lookup mint.key = some mint.toMint)
    (h : hasTransferFee epoch mint = false) : l.FreeOfFee epoch mint.key := by
  intro n
  rw [Ledger.transferFee, hm]
  show mint.toMint.transferFee epoch n = 0
  unfold hasTransferFee at h
  unfold Mint.transferFee
  split
  · rfl
  · next config hconfig =>
    rw [hconfig] at h
    obtain ⟨_, hmax⟩ := Bool.or_eq_false_iff.mp h
    have hzero : (config.getEpochFee epoch).maximumFee.toNat = 0 :=
      toNat_eq_zero_of_not_pos (of_decide_eq_false hmax)
    show min _ (config.getEpochFee epoch).maximumFee.toNat = 0
    rw [hzero, Nat.min_zero]

/-! ## Single calls -/

/-- A transfer of an account to itself loses and gains the same. -/
theorem transferTokens_flow
    (h : transferTokens epoch source destination authority amount l = .ok l')
    (hfree : l.FreeOfFee epoch source.mint) :
    Flow (Pi.single source amount.toNat) (Pi.single destination amount.toNat) l.amount
      l'.amount := by
  obtain ⟨hc, rfl⟩ := transferTokens_eq_ok.mp h
  have hle : amount.toNat ≤ l.amount source := hc.2.2.2.2
  funext a
  show _ + (Pi.single source amount.toNat : Ata → ℕ) a = _ + (Pi.single destination _ : Ata → ℕ) a
  rw [Ledger.amount_transfer hc, hfree, Nat.sub_zero, Pi.single_apply, Pi.single_apply]
  by_cases hself : source = destination
  · rw [if_pos hself, hself]
  rw [if_neg hself]
  by_cases hd : a = destination
  · have hs : ¬ a = source := fun hs => hself (hs.symm.trans hd)
    rw [if_pos hd, if_neg hs, if_pos hd, hd, Nat.add_zero]
  · rw [if_neg hd, if_neg hd]
    by_cases hs : a = source
    · rw [if_pos hs, if_pos hs, hs]
      omega
    · rw [if_neg hs, if_neg hs]

/-- Where the amount is a checked sum. -/
theorem transferSum_flow {a b : ℕ} {e : Error}
    (h : (okOr (checkedAdd 64 a b) e >>= fun total =>
      transferTokens epoch source destination authority (UInt64.ofNat total) l) = .ok l')
    (hfree : l.FreeOfFee epoch source.mint) :
    Flow (Pi.single source (a + b)) (Pi.single destination (a + b)) l.amount l'.amount := by
  simp only [bind_eq_ok, okOr_eq_ok, checkedAdd_eq_some] at h
  obtain ⟨_, ⟨hlt, rfl⟩, h₁⟩ := h
  have hflow := transferTokens_flow h₁ hfree
  rwa [toNat_ofNat_of_lt hlt] at hflow

theorem transferTokens_supply
    (h : transferTokens epoch source destination authority amount l = .ok l') :
    l'.supply = l.supply := by
  obtain ⟨_, rfl⟩ := transferTokens_eq_ok.mp h
  rfl

/-- Between two accounts of one mint a transfer succeeds if the source can pay. -/
theorem transferTokens_ok_iff (epoch amount : UInt64) (hs : l.HasAccount source)
    (hd : l.HasAccount destination) (hmint : source.mint = destination.mint)
    (hauth : authority = source.wallet) :
    (∃ l', transferTokens epoch source destination authority amount l = .ok l') ↔
      amount.toNat ≤ l.amount source := by
  simp only [transferTokens_eq_ok]
  constructor
  · intro h
    obtain ⟨_, hc, _⟩ := h
    exact hc.2.2.2.2
  · intro hle
    exact ⟨_, ⟨hs, hd, hmint, hauth, hle⟩, rfl⟩

theorem burnTokens_flow (h : burnTokens source authority amount l = .ok l') :
    Flow (Pi.single source amount.toNat) 0 l.amount l'.amount := by
  funext a
  show _ + (Pi.single source amount.toNat : Ata → ℕ) a = _ + 0
  rw [Pi.single_apply]
  exact burnTokens_debit h

theorem burnTokens_supply (h : burnTokens source authority amount l = .ok l') :
    Flow (Pi.single source.mint amount.toNat) 0 l.supply l'.supply := by
  obtain ⟨hc, rfl⟩ := burnTokens_eq_ok.mp h
  have hle : amount.toNat ≤ l.supply source.mint := hc.2.2.trans (l.amount_le_supply source)
  funext k
  show _ + (Pi.single source.mint amount.toNat : Pubkey → ℕ) k = _ + 0
  rw [Ledger.supply_burn hc, Pi.single_apply]
  by_cases hk : k = source.mint
  · rw [if_pos hk, if_pos hk, hk]
    omega
  · rw [if_neg hk, if_neg hk]

theorem burnTokens_ok_iff (amount : UInt64) (hs : l.HasAccount source)
    (hauth : authority = source.wallet) :
    (∃ l', burnTokens source authority amount l = .ok l') ↔ amount.toNat ≤ l.amount source := by
  simp only [burnTokens_eq_ok]
  constructor
  · intro h
    obtain ⟨_, hc, _⟩ := h
    exact hc.2.2
  · intro hle
    exact ⟨_, ⟨hs, hauth, hle⟩, rfl⟩

theorem mintTokens_flow (h : mintTokens mint destination authority amount maxSupply l = .ok l') :
    Flow 0 (Pi.single destination amount.toNat) l.amount l'.amount := by
  obtain ⟨_, hc, rfl⟩ := mintTokens_eq_ok.mp h
  funext a
  show _ + 0 = _ + (Pi.single destination amount.toNat : Ata → ℕ) a
  rw [Ledger.amount_mintTo hc, Pi.single_apply]
  by_cases ha : a = destination
  · rw [if_pos ha, if_pos ha, ha, Nat.add_zero]
  · rw [if_neg ha, if_neg ha]

theorem mintTokens_supply (h : mintTokens mint destination authority amount maxSupply l = .ok l') :
    Flow 0 (Pi.single mint.key amount.toNat) l.supply l'.supply := by
  obtain ⟨_, hc, rfl⟩ := mintTokens_eq_ok.mp h
  funext k
  show _ + 0 = _ + (Pi.single mint.key amount.toNat : Pubkey → ℕ) k
  rw [Ledger.supply_mintTo hc, Pi.single_apply]
  by_cases hk : k = mint.key
  · rw [if_pos hk, if_pos hk, hk, Nat.add_zero]
  · rw [if_neg hk, if_neg hk]

/-- What is transferred to another account and burned there is lost. -/
theorem transfer_burn_lost {burn : Ata} {burnAuthority : Pubkey} {l₁ l₂ : Ledger}
    (h₁ : transferTokens epoch source burn authority amount l = .ok l₁)
    (h₂ : burnTokens burn burnAuthority amount l₁ = .ok l₂)
    (hfree : l.FreeOfFee epoch source.mint) (hne : source ≠ burn) :
    l₂.amount source + amount.toNat = l.amount source := by
  have hat := ((transferTokens_flow h₁ hfree).trans (burnTokens_flow h₂)).apply source
  rw [Pi.add_apply, Pi.add_apply, Pi.single_eq_same, Pi.single_eq_of_ne hne, Pi.zero_apply] at hat
  exact hat

/-! ## A fee that may be zero -/

section Fee

variable (h : (if 0 < amount then transferTokens epoch source destination authority amount l
  else pure l) = .ok l')
include h

theorem payFee_flow (hfree : l.FreeOfFee epoch source.mint) :
    Flow (Pi.single source amount.toNat) (Pi.single destination amount.toNat) l.amount
      l'.amount := by
  split at h
  · exact transferTokens_flow h hfree
  · next hzero =>
    rw [pure_eq_ok] at h
    rw [toNat_eq_zero_of_not_pos hzero, Pi.single_zero, Pi.single_zero, h]
    exact .refl _

theorem payFee_le : amount.toNat ≤ l.amount source := by
  split at h
  · obtain ⟨hc, _⟩ := transferTokens_eq_ok.mp h
    exact hc.2.2.2.2
  · next hzero =>
    rw [toNat_eq_zero_of_not_pos hzero]
    exact Nat.zero_le _

theorem payFee_supply : l'.supply = l.supply := by
  split at h
  · exact transferTokens_supply h
  · rw [pure_eq_ok] at h
    rw [h]

end Fee

/-! ## Accounts

An exchange opens and closes none. -/

section Accounts

variable {a : Ata}

theorem transferTokens_hasAccount
    (h : transferTokens epoch source destination authority amount l = .ok l') :
    l'.HasAccount a ↔ l.HasAccount a := by
  obtain ⟨hc, rfl⟩ := transferTokens_eq_ok.mp h
  exact Ledger.hasAccount_transfer hc

theorem burnTokens_hasAccount (h : burnTokens source authority amount l = .ok l') :
    l'.HasAccount a ↔ l.HasAccount a := by
  obtain ⟨hc, rfl⟩ := burnTokens_eq_ok.mp h
  exact Ledger.hasAccount_burn hc

theorem mintTokens_hasAccount
    (h : mintTokens mint destination authority amount maxSupply l = .ok l') :
    l'.HasAccount a ↔ l.HasAccount a := by
  obtain ⟨_, hc, rfl⟩ := mintTokens_eq_ok.mp h
  exact Ledger.hasAccount_mintTo hc

theorem payFee_hasAccount
    (h : (if 0 < amount then transferTokens epoch source destination authority amount l
      else pure l) = .ok l') : l'.HasAccount a ↔ l.HasAccount a := by
  split at h
  · exact transferTokens_hasAccount h
  · rw [pure_eq_ok] at h
    rw [h]

theorem distributeTokenOut_hasAccount
    (h : distributeTokenOut epoch mint source destination authority mintAuthorityPda amount
      maxSupply l = .ok l') : l'.HasAccount a ↔ l.HasAccount a := by
  unfold distributeTokenOut at h
  split at h
  · exact mintTokens_hasAccount h
  · exact transferTokens_hasAccount h

theorem payTokenIn_hasAccount (h : payTokenIn epoch p l = .ok l') :
    l'.HasAccount a ↔ l.HasAccount a := by
  unfold payTokenIn at h
  split at h
  · simp only [bind_eq_ok] at h
    obtain ⟨l₁, h₁, l₂, h₂, h₃⟩ := h
    have hburned : l₂.HasAccount a ↔ l.HasAccount a :=
      (burnTokens_hasAccount h₂).trans (transferTokens_hasAccount h₁)
    exact (payFee_hasAccount h₃).trans hburned
  · simp only [bind_eq_ok] at h
    obtain ⟨_, _, h₁⟩ := h
    exact transferTokens_hasAccount h₁

theorem executeTokenOperations_hasAccount (h : executeTokenOperations epoch p l = .ok l') :
    l'.HasAccount a ↔ l.HasAccount a := by
  obtain ⟨_, _, l₁, h₁, h₂⟩ := executeTokenOperations_eq_ok.mp h
  exact (distributeTokenOut_hasAccount h₂).trans (payTokenIn_hasAccount h₁)

end Accounts

/-! ## Step 1 -/

namespace ExecTokenOpsParams

/-- What of `token_in` is burned. -/
def burned (p : ExecTokenOpsParams) : ℕ :=
  if programControlsMint p.tokenInMint p.mintAuthorityPda then p.tokenInNetAmount.toNat else 0

/-- What of `token_in` its destination gets. -/
def kept (p : ExecTokenOpsParams) : ℕ :=
  if programControlsMint p.tokenInMint p.mintAuthorityPda then p.tokenInFeeAmount.toNat
  else p.tokenInNetAmount.toNat + p.tokenInFeeAmount.toNat

/-- The accounts of step 1 are there, of one mint, and paid from by their owners. -/
structure PaysIn (p : ExecTokenOpsParams) (l : Ledger) : Prop where
  source : l.HasAccount p.tokenInSourceAccount
  destination : l.HasAccount p.tokenInDestinationAccount
  burn : l.HasAccount p.tokenInBurnAccount
  destination_mint : p.tokenInSourceAccount.mint = p.tokenInDestinationAccount.mint
  burn_mint : p.tokenInSourceAccount.mint = p.tokenInBurnAccount.mint
  authority : p.tokenInAuthority = p.tokenInSourceAccount.wallet
  burnAuthority : p.tokenInBurnAuthority = p.tokenInBurnAccount.wallet
  source_ne_burn : p.tokenInSourceAccount ≠ p.tokenInBurnAccount

end ExecTokenOpsParams

/-- Whether it is burned or transferred, the source pays the whole amount. -/
theorem payTokenIn_flow (hfree : l.FreeOfFee epoch p.tokenInSourceAccount.mint)
    (h : payTokenIn epoch p l = .ok l') :
    Flow (Pi.single p.tokenInSourceAccount (p.tokenInNetAmount.toNat + p.tokenInFeeAmount.toNat))
      (Pi.single p.tokenInDestinationAccount p.kept) l.amount l'.amount := by
  unfold payTokenIn at h
  unfold ExecTokenOpsParams.kept
  split at h
  · next hcontrols =>
    rw [if_pos hcontrols]
    simp only [bind_eq_ok] at h
    obtain ⟨l₁, h₁, l₂, h₂, h₃⟩ := h
    have hcalls : Calls (fun _ => True) l l₂ :=
      (transferTokens_calls h₁ trivial).trans (burnTokens_calls h₂ trivial)
    have hflow := (transferTokens_flow h₁ hfree).trans (burnTokens_flow h₂)
    have hfee := payFee_flow h₃ (hfree.calls hcalls)
    -- The net amount passes through the account it is burned from.
    refine ((hflow.trans hfee).congr ?_ ?_).cancel
      (t := Pi.single p.tokenInBurnAccount p.tokenInNetAmount.toNat)
    · rw [Pi.single_add]
      abel
    · abel
  · next hcontrols =>
    rw [if_neg hcontrols]
    exact transferSum_flow h hfree

theorem payTokenIn_supply (h : payTokenIn epoch p l = .ok l') :
    Flow (Pi.single p.tokenInBurnAccount.mint p.burned) (Pi.single p.tokenInBurnAccount.mint 0)
      l.supply l'.supply := by
  rw [Pi.single_zero]
  unfold payTokenIn at h
  unfold ExecTokenOpsParams.burned
  split at h
  · next hcontrols =>
    rw [if_pos hcontrols]
    simp only [bind_eq_ok] at h
    obtain ⟨l₁, h₁, l₂, h₂, h₃⟩ := h
    have hburn := burnTokens_supply h₂
    rw [transferTokens_supply h₁] at hburn
    rw [payFee_supply h₃]
    exact hburn
  · next hcontrols =>
    rw [if_neg hcontrols, Pi.single_zero]
    simp only [bind_eq_ok] at h
    obtain ⟨_, _, h₁⟩ := h
    rw [transferTokens_supply h₁]
    exact .refl _

/-- Step 1 succeeds exactly if the source holds the whole amount. -/
theorem payTokenIn_ok_iff (hacc : p.PaysIn l)
    (hfree : l.FreeOfFee epoch p.tokenInSourceAccount.mint)
    (htotal : p.tokenInNetAmount.toNat + p.tokenInFeeAmount.toNat < 2 ^ 64) :
    (∃ l', payTokenIn epoch p l = .ok l') ↔
      p.tokenInNetAmount.toNat + p.tokenInFeeAmount.toNat ≤ l.amount p.tokenInSourceAccount := by
  unfold payTokenIn
  split
  · constructor
    · intro h
      simp only [bind_eq_ok] at h
      obtain ⟨l', l₁, h₁, l₂, h₂, h₃⟩ := h
      have hsource := transfer_burn_lost h₁ h₂ hfree hacc.source_ne_burn
      have hfee := payFee_le h₃
      omega
    · intro hle
      obtain ⟨l₁, h₁⟩ := (transferTokens_ok_iff epoch p.tokenInNetAmount
        hacc.source hacc.burn hacc.burn_mint hacc.authority).mpr (by omega)
      have hcalls₁ : Calls (fun _ => True) l l₁ := transferTokens_calls h₁ trivial
      have hburn := (transferTokens_flow h₁ hfree).apply_gained hacc.source_ne_burn.symm
      obtain ⟨l₂, h₂⟩ := (burnTokens_ok_iff p.tokenInNetAmount
        (hcalls₁.hasAccount hacc.burn) hacc.burnAuthority).mpr (by omega)
      have hcalls₂ : Calls (fun _ => True) l l₂ := hcalls₁.trans (burnTokens_calls h₂ trivial)
      have hsource := transfer_burn_lost h₁ h₂ hfree hacc.source_ne_burn
      obtain ⟨l₃, h₃⟩ := (transferTokens_ok_iff epoch p.tokenInFeeAmount
        (hcalls₂.hasAccount hacc.source) (hcalls₂.hasAccount hacc.destination)
        hacc.destination_mint hacc.authority).mpr (by omega)
      simp only [bind_eq_ok]
      by_cases hfee : 0 < p.tokenInFeeAmount
      · exact ⟨l₃, l₁, h₁, l₂, h₂, by rwa [if_pos hfee]⟩
      · exact ⟨l₂, l₁, h₁, l₂, h₂, by rw [if_neg hfee]; rfl⟩
  · have hamount := toNat_ofNat_of_lt htotal
    have hok := transferTokens_ok_iff epoch
      (UInt64.ofNat (p.tokenInNetAmount.toNat + p.tokenInFeeAmount.toNat))
      hacc.source hacc.destination hacc.destination_mint hacc.authority
    rw [hamount] at hok
    rw [← hok]
    simp only [bind_eq_ok, okOr_eq_ok, checkedAdd_eq_some]
    constructor
    · intro h
      obtain ⟨l₁, _, ⟨_, rfl⟩, h₁⟩ := h
      exact ⟨l₁, h₁⟩
    · intro h
      obtain ⟨l₁, h₁⟩ := h
      exact ⟨l₁, _, ⟨htotal, rfl⟩, h₁⟩

/-! ## Step 2 -/

/-- What step 2 takes from the source of `token_out`. -/
def drawnFromSource (mint : MintAccount) (mintAuthorityPda : Pubkey) (amount : UInt64) : ℕ :=
  if programControlsMint mint mintAuthorityPda then 0 else amount.toNat

/-- What step 2 mints. -/
def mintedOut (mint : MintAccount) (mintAuthorityPda : Pubkey) (amount : UInt64) : ℕ :=
  if programControlsMint mint mintAuthorityPda then amount.toNat else 0

/-- What step 2 needs: room under the cap and in the supply, or enough in the source. -/
def CanDistribute (mint : MintAccount) (source : Ata) (mintAuthorityPda : Pubkey)
    (amount maxSupply : UInt64) (l : Ledger) : Prop :=
  if programControlsMint mint mintAuthorityPda then
    (0 < maxSupply → mint.supply.toNat + amount.toNat ≤ maxSupply.toNat) ∧
      l.supply mint.key + amount.toNat < 2 ^ 64
  else amount.toNat ≤ l.amount source

theorem distributeTokenOut_flow
    (h : distributeTokenOut epoch mint source destination authority mintAuthorityPda amount
      maxSupply l = .ok l') (hfree : l.FreeOfFee epoch source.mint) :
    Flow (Pi.single source (drawnFromSource mint mintAuthorityPda amount))
      (Pi.single destination amount.toNat) l.amount l'.amount := by
  unfold distributeTokenOut at h
  unfold drawnFromSource
  split at h
  · next hcontrols =>
    rw [if_pos hcontrols, Pi.single_zero]
    exact mintTokens_flow h
  · next hcontrols =>
    rw [if_neg hcontrols]
    exact transferTokens_flow h hfree

theorem distributeTokenOut_supply
    (h : distributeTokenOut epoch mint source destination authority mintAuthorityPda amount
      maxSupply l = .ok l') :
    Flow 0 (Pi.single mint.key (mintedOut mint mintAuthorityPda amount)) l.supply l'.supply := by
  unfold distributeTokenOut at h
  unfold mintedOut
  split at h
  · next hcontrols =>
    rw [if_pos hcontrols]
    exact mintTokens_supply h
  · next hcontrols =>
    rw [if_neg hcontrols, Pi.single_zero, transferTokens_supply h]
    exact .refl _

theorem distributeTokenOut_ok_iff (hs : l.HasAccount source) (hd : l.HasAccount destination)
    (hsm : source.mint = mint.key) (hdm : destination.mint = mint.key)
    (hauth : authority = source.wallet) (hmint : l.mintAuthority mint.key = mint.mintAuthority) :
    (∃ l', distributeTokenOut epoch mint source destination authority mintAuthorityPda amount
      maxSupply l = .ok l') ↔ CanDistribute mint source mintAuthorityPda amount maxSupply l := by
  unfold distributeTokenOut CanDistribute
  split
  · next hcontrols =>
    have hpda : l.mintAuthority mint.key = some mintAuthorityPda :=
      hmint.trans (of_decide_eq_true hcontrols)
    simp only [mintTokens_eq_ok]
    constructor
    · intro h
      obtain ⟨_, hcap, hc, _⟩ := h
      exact ⟨hcap, hc.2.2.2⟩
    · intro h
      obtain ⟨hcap, hlt⟩ := h
      exact ⟨_, hcap, ⟨hd, hdm, hpda, hlt⟩, rfl⟩
  · exact transferTokens_ok_iff _ _ hs hd (hsm.trans hdm.symm) hauth

end OnreApp.Utils
