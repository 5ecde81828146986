import OnreApp.Tokens.CallTrace
import OnreApp.Utils.TokenUtils

/-!
# What an exchange of tokens does to the ledger

What each step takes from one account and gives to it, and which wallets an exchange can
touch at all, whatever the accounts passed.
-/
namespace OnreApp.Utils

open Library.Checked Library.Outcome Tokens

variable {l l' : Ledger} {epoch : UInt64} {source destination : Ata} {authority : Pubkey}
  {mintAuthorityPda : Pubkey} {mint : MintAccount} {amount maxSupply : UInt64}
  {p : ExecTokenOpsParams}

theorem transferTokens_calls {allow : TokenCpi → Prop}
    (h : transferTokens epoch source destination authority amount l = .ok l')
    (hallow : allow (.transferChecked source destination amount)) : Calls allow l l' := by
  obtain ⟨hc, rfl⟩ := transferTokens_eq_ok.mp h
  exact (Calls.refl l).transfer hc hallow

theorem burnTokens_calls {allow : TokenCpi → Prop}
    (h : burnTokens source authority amount l = .ok l')
    (hallow : allow (.burnChecked source amount)) : Calls allow l l' := by
  obtain ⟨hc, rfl⟩ := burnTokens_eq_ok.mp h
  exact (Calls.refl l).burn hc hallow

theorem mintTokens_calls {allow : TokenCpi → Prop}
    (h : mintTokens mint destination authority amount maxSupply l = .ok l')
    (hallow : allow (.mintToChecked mint.key destination amount)) : Calls allow l l' := by
  obtain ⟨_, hc, rfl⟩ := mintTokens_eq_ok.mp h
  exact (Calls.refl l).mintTo hc hallow

/-- The transfer of a fee, left out where the fee is zero. -/
theorem payFee_calls {allow : TokenCpi → Prop}
    (h : (if 0 < amount then transferTokens epoch source destination authority amount l
      else pure l) = .ok l') (hallow : allow (.transferChecked source destination amount)) :
    Calls allow l l' := by
  split at h
  · exact transferTokens_calls h hallow
  · rw [pure_eq_ok] at h
    exact h ▸ .refl _

/-! ## What one account gains and loses -/

section Accounts

variable {a : Ata}

/-- A transfer takes its amount from the source, and nothing from an account that does not
receive it. -/
theorem transferTokens_debit
    (h : transferTokens epoch source destination authority amount l = .ok l')
    (ha : a ≠ destination) :
    l'.amount a + (if a = source then amount.toNat else 0) = l.amount a := by
  obtain ⟨hc, rfl⟩ := transferTokens_eq_ok.mp h
  have hle : amount.toNat ≤ l.amount source := hc.2.2.2.2
  rw [Ledger.amount_transfer hc, if_neg ha]
  by_cases hs : a = source
  · subst hs
    rw [if_neg ha, if_pos rfl, if_pos rfl]
    omega
  · rw [if_neg hs, if_neg hs, ite_self, Nat.add_zero]

/-- Where transfers are exact the destination gets all of it. -/
theorem transferTokens_credit
    (h : transferTokens epoch source destination authority amount l = .ok l') (hexact : l.Exact)
    (hne : source ≠ destination) :
    l'.amount destination = l.amount destination + amount.toNat := by
  obtain ⟨hc, rfl⟩ := transferTokens_eq_ok.mp h
  rw [Ledger.amount_transfer hc, if_neg hne, if_pos rfl, hexact, Nat.sub_zero]

theorem burnTokens_debit (h : burnTokens source authority amount l = .ok l') :
    l'.amount a + (if a = source then amount.toNat else 0) = l.amount a := by
  obtain ⟨hc, rfl⟩ := burnTokens_eq_ok.mp h
  have hle : amount.toNat ≤ l.amount source := hc.2.2
  rw [Ledger.amount_burn hc]
  by_cases hs : a = source
  · subst hs
    rw [if_pos rfl, if_pos rfl]
    omega
  · rw [if_neg hs, if_neg hs, Nat.add_zero]

theorem mintTokens_other (h : mintTokens mint destination authority amount maxSupply l = .ok l')
    (ha : a ≠ destination) : l'.amount a = l.amount a := by
  obtain ⟨_, hc, rfl⟩ := mintTokens_eq_ok.mp h
  rw [Ledger.amount_mintTo hc, if_neg ha]

/-- Step 2 takes from the source, unless the program mints. -/
theorem distributeTokenOut_debit
    (h : distributeTokenOut epoch mint source destination authority mintAuthorityPda amount
      maxSupply l = .ok l') (ha : a ≠ destination) :
    l'.amount a + (if a = source then
      (if programControlsMint mint mintAuthorityPda then 0 else amount.toNat) else 0) =
        l.amount a := by
  unfold distributeTokenOut at h
  split at h
  · next hc =>
    rw [if_pos hc, ite_self, Nat.add_zero]
    exact mintTokens_other h ha
  · next hc =>
    rw [if_neg hc]
    exact transferTokens_debit h ha

end Accounts

/-! ## Which wallets an exchange touches -/

/-- Step 1 moves and burns, and mints nothing. -/
theorem payTokenIn_calls (h : payTokenIn epoch p l = .ok l') :
    Calls (TokenCpi.MovesWithin [p.tokenInSourceAccount.wallet, p.tokenInBurnAccount.wallet]
      [p.tokenInBurnAccount.wallet, p.tokenInDestinationAccount.wallet]) l l' := by
  unfold payTokenIn at h
  split at h
  · simp only [bind_eq_ok] at h
    obtain ⟨l₁, h₁, l₂, h₂, h₃⟩ := h
    refine ((transferTokens_calls h₁ ?_).trans (burnTokens_calls h₂ ?_)).trans
      (payFee_calls h₃ ?_)
    · exact ⟨List.mem_cons_self, List.mem_cons_self⟩
    · exact List.mem_cons_of_mem _ List.mem_cons_self
    · exact ⟨List.mem_cons_self, List.mem_cons_of_mem _ List.mem_cons_self⟩
  · simp only [bind_eq_ok] at h
    obtain ⟨_, _, h₁⟩ := h
    refine transferTokens_calls h₁ ⟨List.mem_cons_self, ?_⟩
    exact List.mem_cons_of_mem _ List.mem_cons_self

theorem distributeTokenOut_calls
    (h : distributeTokenOut epoch mint source destination authority mintAuthorityPda amount
      maxSupply l = .ok l') :
    Calls (TokenCpi.Within [source.wallet] [destination.wallet]) l l' := by
  unfold distributeTokenOut at h
  split at h
  · exact mintTokens_calls h List.mem_cons_self
  · exact transferTokens_calls h ⟨List.mem_cons_self, List.mem_cons_self⟩

/-- A mint under a cap keeps to it, if the supply has not grown since the mint was loaded. -/
theorem mintTokens_capped
    (h : mintTokens mint destination authority amount maxSupply l = .ok l') (hmax : 0 < maxSupply)
    (hsupply : l.supply mint.key ≤ mint.supply.toNat) : MintedWithin maxSupply.toNat l l' := by
  intro k hm
  obtain ⟨hcap, hc, rfl⟩ := mintTokens_eq_ok.mp h
  obtain ⟨new, d, n, he, hmem, _⟩ := hm
  have hnew : new = [.mintToChecked mint.key destination amount] :=
    List.append_cancel_right (he.symm.trans rfl)
  rw [hnew, List.mem_singleton] at hmem
  cases hmem
  rw [Ledger.supply_mintTo hc, if_pos rfl]
  exact (Nat.add_le_add_right hsupply _).trans (hcap hmax)

/-- Step 2 mints only within the cap, if there is one. -/
theorem distributeTokenOut_capped
    (h : distributeTokenOut epoch mint source destination authority mintAuthorityPda amount
      maxSupply l = .ok l') (hmax : 0 < maxSupply)
    (hsupply : l.supply mint.key ≤ mint.supply.toNat) : MintedWithin maxSupply.toNat l l' := by
  unfold distributeTokenOut at h
  split at h
  · exact mintTokens_capped h hmax hsupply
  · have hcalls : Calls (fun c => ∀ k, ¬ c.mints k) l l' := transferTokens_calls h fun _ hm => hm
    exact .of_calls hcalls fun c k hc => hc k

theorem executeTokenOperations_eq_ok : executeTokenOperations epoch p l = .ok l' ↔
    hasTransferFee epoch p.tokenInMint = false ∧ hasTransferFee epoch p.tokenOutMint = false ∧
      ∃ l₁, payTokenIn epoch p l = .ok l₁ ∧
        distributeTokenOut epoch p.tokenOutMint p.tokenOutSourceAccount
          p.tokenOutDestinationAccount p.tokenOutAuthority p.mintAuthorityPda p.tokenOutAmount
          p.tokenOutMaxSupply l₁ = .ok l' := by
  simp only [executeTokenOperations, bind_eq_ok, require_eq_ok, Bool.not_eq_true]
  constructor
  · rintro ⟨_, hi, _, ho, l₁, h₁, h₂⟩
    exact ⟨hi, ho, l₁, h₁, h₂⟩
  · rintro ⟨hi, ho, l₁, h₁, h₂⟩
    exact ⟨⟨⟩, hi, ⟨⟩, ho, l₁, h₁, h₂⟩

theorem executeTokenOperations_calls (h : executeTokenOperations epoch p l = .ok l') :
    Calls (TokenCpi.Within
      [p.tokenInSourceAccount.wallet, p.tokenInBurnAccount.wallet, p.tokenOutSourceAccount.wallet]
      [p.tokenInBurnAccount.wallet, p.tokenInDestinationAccount.wallet,
        p.tokenOutDestinationAccount.wallet]) l l' := by
  obtain ⟨_, _, l₁, h₁, h₂⟩ := executeTokenOperations_eq_ok.mp h
  refine ((payTokenIn_calls h₁).mono ?_).trans ((distributeTokenOut_calls h₂).mono ?_)
  · exact fun c hc => hc.within.mono (by simp) (by simp)
  · exact fun c hc => hc.mono (by simp) (by simp)

/-- Both steps together: `token_in` is paid before anything is minted. -/
theorem executeTokenOperations_capped (h : executeTokenOperations epoch p l = .ok l')
    (hmax : 0 < p.tokenOutMaxSupply)
    (hsupply : l.supply p.tokenOutMint.key ≤ p.tokenOutMint.supply.toNat) :
    MintedWithin p.tokenOutMaxSupply.toNat l l' := by
  obtain ⟨_, _, l₁, h₁, h₂⟩ := executeTokenOperations_eq_ok.mp h
  have hpay := payTokenIn_calls h₁
  have hle : l₁.supply p.tokenOutMint.key ≤ p.tokenOutMint.supply.toNat :=
    (hpay.supply_le fun c hc => hc.not_mints).trans hsupply
  have hcap := distributeTokenOut_capped h₂ hmax hle
  exact hcap.surround hpay (fun c k hc => hc.not_mints) (distributeTokenOut_calls h₂)
    (.refl _ : Calls (fun _ => False) l' l') fun c k hc => hc.elim

/-! ## What the cap adds -/

/-- Minting under a cap is minting without one, behind a comparison. -/
theorem distributeTokenOut_capped_iff :
    distributeTokenOut epoch mint source destination authority mintAuthorityPda amount maxSupply l =
      .ok l' ↔
    (programControlsMint mint mintAuthorityPda = true → 0 < maxSupply →
      mint.supply.toNat + amount.toNat ≤ maxSupply.toNat) ∧
    distributeTokenOut epoch mint source destination authority mintAuthorityPda amount 0 l =
      .ok l' := by
  unfold distributeTokenOut
  by_cases hcontrols : programControlsMint mint mintAuthorityPda = true
  · rw [if_pos hcontrols, if_pos hcontrols, mintTokens_eq_ok, mintTokens_eq_ok]
    have huncapped : ¬ (0 : UInt64) < 0 := by decide
    constructor
    · intro h
      exact ⟨fun _ => h.1, fun hpos => absurd hpos huncapped, h.2⟩
    · intro h
      exact ⟨h.1 hcontrols, h.2.2⟩
  · rw [if_neg hcontrols, if_neg hcontrols]
    exact ⟨fun h => ⟨fun hc => absurd hc hcontrols, h⟩, fun h => h.2⟩

theorem executeTokenOperations_capped_iff : executeTokenOperations epoch p l = .ok l' ↔
    (programControlsMint p.tokenOutMint p.mintAuthorityPda = true → 0 < p.tokenOutMaxSupply →
      p.tokenOutMint.supply.toNat + p.tokenOutAmount.toNat ≤ p.tokenOutMaxSupply.toNat) ∧
    executeTokenOperations epoch { p with tokenOutMaxSupply := 0 } l = .ok l' := by
  rw [executeTokenOperations_eq_ok, executeTokenOperations_eq_ok]
  constructor
  · intro h
    obtain ⟨hin, hout, l₁, hpay, hdist⟩ := h
    obtain ⟨hcap, hdist⟩ := distributeTokenOut_capped_iff.mp hdist
    exact ⟨hcap, hin, hout, l₁, hpay, hdist⟩
  · intro h
    obtain ⟨hcap, hin, hout, l₁, hpay, hdist⟩ := h
    exact ⟨hin, hout, l₁, hpay, distributeTokenOut_capped_iff.mpr ⟨hcap, hdist⟩⟩

end OnreApp.Utils
