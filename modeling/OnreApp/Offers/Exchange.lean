import OnreApp.Offers.TakeLedger
import OnreApp.Utils.ExactRouting

/-!
# The exchange of a take, exactly

What a take moves once it has passed its checks, whoever pays, and exactly when it goes
through.
-/
namespace OnreApp.Offers

open Library.Balance Library.Outcome Program Tokens Utils

/-! ## The accounts of a take -/

namespace TakeOffer

variable {ctx : TakeOffer} {j k : Pubkey}

@[simp] theorem tokenInAccount_inj : ctx.tokenInAccount j = ctx.tokenInAccount k ↔ j = k := by
  simp [tokenInAccount]

@[simp] theorem tokenOutAccount_inj : ctx.tokenOutAccount j = ctx.tokenOutAccount k ↔ j = k := by
  simp [tokenOutAccount]

theorem tokenInAccount_ne (h : j ≠ k) : ctx.tokenInAccount j ≠ ctx.tokenInAccount k :=
  mt tokenInAccount_inj.mp h

theorem tokenOutAccount_ne (h : j ≠ k) : ctx.tokenOutAccount j ≠ ctx.tokenOutAccount k :=
  mt tokenOutAccount_inj.mp h

theorem tokenInAccount_ne_tokenOutAccount (h : ctx.tokenInMint ≠ ctx.tokenOutMint)
    (j k : Pubkey) : ctx.tokenInAccount j ≠ ctx.tokenOutAccount k :=
  fun he => h (congrArg Ata.mint he)

/-- What the program needs to pay `token_out` after `token_in` was paid: room under the cap and
in the supply, of which step 1 may have burned some of the same mint; or enough in the vault. -/
def CanPayOut (ctx : TakeOffer) (tokenOut : MintAccount) (result : OfferProcessResult)
    (maxSupply : UInt64) (l : Ledger) : Prop :=
  if programControlsMint tokenOut Seeds.mintAuthority then
    (0 < maxSupply → tokenOut.supply.toNat + result.tokenOutAmount.toNat ≤ maxSupply.toNat) ∧
      l.supply tokenOut.key + result.tokenOutAmount.toNat <
        2 ^ 64 + if ctx.tokenInMint = ctx.tokenOutMint then result.tokenInNetAmount.toNat else 0
  else result.tokenOutAmount.toNat ≤ l.amount (ctx.tokenOutAccount Seeds.offerVaultAuthority)

theorem canPayOut_iff {tokenOut : MintAccount} {result : OfferProcessResult} {maxSupply : UInt64}
    {l : Ledger} (hmints : ctx.tokenInMint ≠ ctx.tokenOutMint) :
    ctx.CanPayOut tokenOut result maxSupply l ↔
      CanDistribute tokenOut (ctx.tokenOutAccount Seeds.offerVaultAuthority) Seeds.mintAuthority
        result.tokenOutAmount maxSupply l := by
  unfold CanPayOut CanDistribute
  rw [if_neg hmints, Nat.add_zero]

/-- Only the mint's supply and the vault's balance matter. -/
theorem canPayOut_congr {tokenOut : MintAccount} {result : OfferProcessResult}
    {maxSupply : UInt64} {l l' : Ledger}
    (hsupply : l'.supply tokenOut.key = l.supply tokenOut.key)
    (hamount : l'.amount (ctx.tokenOutAccount Seeds.offerVaultAuthority) =
      l.amount (ctx.tokenOutAccount Seeds.offerVaultAuthority)) :
    ctx.CanPayOut tokenOut result maxSupply l' ↔ ctx.CanPayOut tokenOut result maxSupply l := by
  unfold CanPayOut
  rw [hsupply, hamount]

end TakeOffer

/-! ## The exchange -/

section Exchange

variable {env : Env} {w : World} {ctx : TakeOffer} {amount : UInt64}
  {approval : Option ApprovalMessage} {offer : Offer} {s : State} {tokenIn tokenOut : MintAccount}
  {l l₁ l₂ : Ledger} {result : OfferProcessResult} {payer : Pubkey} {debited credited : List Pubkey}

namespace TakeChecks

variable (h : TakeChecks env ctx amount approval w offer s tokenIn tokenOut l result)
include h

theorem has_vaultIn : l.HasAccount (ctx.tokenInAccount Seeds.offerVaultAuthority) :=
  (h.calls : Calls (fun _ => False) w.ledger l).hasAccount
    (TakeOffer.loadTokenAccounts_eq_ok.mp h.accounts).1

theorem has_vaultOut : l.HasAccount (ctx.tokenOutAccount Seeds.offerVaultAuthority) :=
  (h.calls : Calls (fun _ => False) w.ledger l).hasAccount
    (TakeOffer.loadTokenAccounts_eq_ok.mp h.accounts).2.1

theorem has_userIn : l.HasAccount (ctx.tokenInAccount ctx.user.key) :=
  (h.calls : Calls (fun _ => False) w.ledger l).hasAccount
    (TakeOffer.loadTokenAccounts_eq_ok.mp h.accounts).2.2.1

theorem has_userOut : l.HasAccount (ctx.tokenOutAccount ctx.user.key) := by
  rcases Ledger.initIfNeeded_eq_ok.mp (TakeOffer.loadTokenAccounts_eq_ok.mp h.accounts).2.2.2.1 with
    ⟨ha, rfl⟩ | ⟨hc, rfl⟩
  · exact ha
  · exact (Ledger.hasAccount_create hc).mpr (.inl rfl)

theorem has_bossIn : l.HasAccount (ctx.tokenInAccount ctx.boss) :=
  (TakeOffer.loadTokenAccounts_eq_ok.mp h.accounts).2.2.2.2

/-- Only balances of zero were created before the exchange. -/
theorem amount_eq (a : Ata) : l.amount a = w.ledger.amount a :=
  (h.calls : Calls (fun _ => False) w.ledger l).amount_eq fun _ hc => hc.elim

/-- Before the exchange no supply has changed. -/
theorem supply_eq : l.supply = w.ledger.supply :=
  Ledger.supply_initIfNeeded (TakeOffer.loadTokenAccounts_eq_ok.mp h.accounts).2.2.2.1

theorem boss_ne_vault : ctx.boss ≠ Seeds.offerVaultAuthority := by
  rw [← h.boss]
  exact s.boss.ne_authority (by decide)

theorem boss_ne_permissionless : ctx.boss ≠ Seeds.permissionlessAuthority := by
  rw [← h.boss]
  exact s.boss.ne_authority (by decide)

theorem user_ne_boss (huser : ∀ s, w.state = some s → ctx.user ≠ s.boss) :
    ctx.user.key ≠ ctx.boss :=
  fun he => huser s h.state_stored (ExternalKey.ext (he.trans h.boss.symm))

theorem freeOfFee_in (hfee : hasTransferFee env.epoch tokenIn = false)
    (hc : Calls (TokenCpi.MovesWithin debited credited) l l₁) :
    l₁.FreeOfFee env.epoch ctx.tokenInMint := by
  have hfree := freeOfFee_of_hasTransferFee (h.tokenIn_key.symm ▸ h.tokenIn) hfee
  rw [h.tokenIn_key] at hfree
  exact (hfree.calls (h.calls : Calls (fun _ => False) w.ledger l)).calls hc

theorem freeOfFee_out (hfee : hasTransferFee env.epoch tokenOut = false)
    (hc : Calls (TokenCpi.MovesWithin debited credited) l l₁) :
    l₁.FreeOfFee env.epoch ctx.tokenOutMint := by
  have hfree := freeOfFee_of_hasTransferFee (h.tokenOut_key.symm ▸ h.tokenOut) hfee
  rw [h.tokenOut_key] at hfree
  exact (hfree.calls (h.calls : Calls (fun _ => False) w.ledger l)).calls hc

theorem mintAuthority_out (hc : Calls (TokenCpi.MovesWithin debited credited) l l₁) :
    l₁.mintAuthority tokenOut.key = tokenOut.mintAuthority := by
  rw [(hc.mono fun _ => TokenCpi.MovesWithin.within).mintAuthority_eq_of_within,
    (h.calls : Calls (fun _ => False) w.ledger l).mintAuthority_eq fun _ hc => hc.elim,
    h.tokenOut_key, Ledger.mintAuthority, h.tokenOut]
  rfl

/-- The payer gives the whole amount and gets what is priced; the boss and the vault do the
rest, whoever pays. -/
theorem exchange_flow (hc : Calls (TokenCpi.MovesWithin debited credited) l l₁)
    (hexec : executeTokenOperations env.epoch (ctx.execParams payer s tokenIn tokenOut result) l₁ =
      .ok l₂) :
    Flow (Pi.single (ctx.tokenInAccount payer) amount.toNat +
        Pi.single (ctx.tokenOutAccount Seeds.offerVaultAuthority)
          (drawnFromSource tokenOut Seeds.mintAuthority result.tokenOutAmount))
      (Pi.single (ctx.tokenInAccount ctx.boss)
          (ctx.execParams ctx.user.key s tokenIn tokenOut result).kept +
        Pi.single (ctx.tokenOutAccount payer) result.tokenOutAmount.toNat) l₁.amount l₂.amount ∧
    Flow (Pi.single ctx.tokenInMint (ctx.execParams ctx.user.key s tokenIn tokenOut result).burned +
        0)
      (Pi.single ctx.tokenInMint 0 +
        Pi.single tokenOut.key (mintedOut tokenOut Seeds.mintAuthority result.tokenOutAmount))
      l₁.supply l₂.supply := by
  obtain ⟨hin, hout, l', hpay, hdist⟩ := executeTokenOperations_eq_ok.mp hexec
  have hcalls := payTokenIn_calls hpay
  have hpaid := payTokenIn_flow (h.freeOfFee_in hin hc) hpay
  rw [show (ctx.execParams payer s tokenIn tokenOut result).tokenInNetAmount.toNat +
    (ctx.execParams payer s tokenIn tokenOut result).tokenInFeeAmount.toNat = amount.toNat from
      processOfferCore_total h.priced] at hpaid
  have hgiven := distributeTokenOut_flow hdist ((h.freeOfFee_out hout hc).calls hcalls)
  exact ⟨hpaid.trans hgiven, (payTokenIn_supply hpay).trans (distributeTokenOut_supply hdist)⟩

/-- After an exchange the payer, who had the amount, holds what was priced. -/
theorem exchange_pays (hc : Calls (TokenCpi.MovesWithin debited credited) l l₁)
    (hvault : payer ≠ Seeds.offerVaultAuthority)
    (hle : amount.toNat ≤ l₁.amount (ctx.tokenInAccount payer))
    (hexec : executeTokenOperations env.epoch (ctx.execParams payer s tokenIn tokenOut result) l₁ =
      .ok l₂) : result.tokenOutAmount.toNat ≤ l₂.amount (ctx.tokenOutAccount payer) := by
  have hat := (h.exchange_flow hc hexec).1.apply (ctx.tokenOutAccount payer)
  have hout : ctx.tokenOutAccount payer ≠ ctx.tokenOutAccount Seeds.offerVaultAuthority :=
    TakeOffer.tokenOutAccount_ne hvault
  rw [Pi.add_apply, Pi.add_apply, Pi.single_eq_same, Pi.single_eq_of_ne hout,
    Pi.single_apply] at hat
  split at hat
  · next he =>
    rw [← he] at hle
    omega
  · omega

/-- The exchange of the user leaves the accounts of the intermediary. -/
theorem exchange_intermediary
    (hexec : executeTokenOperations env.epoch
      (ctx.execParams ctx.user.key s tokenIn tokenOut result) l₁ = .ok l₂)
    {a : Ata} (ha : a.wallet = Seeds.permissionlessAuthority) :
    l₂.amount a = l₁.amount a := by
  have huser : ctx.user.key ≠ Seeds.permissionlessAuthority := ctx.user.ne_authority (by decide)
  have hvault : Seeds.permissionlessAuthority ≠ Seeds.offerVaultAuthority := by decide
  refine (executeTokenOperations_calls hexec).amount_eq_of_notMem ?_ ?_
  · show a.wallet ∉ [ctx.user.key, Seeds.offerVaultAuthority, Seeds.offerVaultAuthority]
    rw [ha]
    simp [huser.symm, hvault]
  · show a.wallet ∉ [Seeds.offerVaultAuthority, ctx.boss, ctx.user.key]
    rw [ha]
    simp [huser.symm, hvault, h.boss_ne_permissionless.symm]

/-- What of the mint of `token_out` step 1 burns, where the program controls it. -/
theorem burned_of_same (hcontrols : programControlsMint tokenOut Seeds.mintAuthority = true) :
    (Pi.single ctx.tokenInMint (ctx.execParams payer s tokenIn tokenOut result).burned :
      Pubkey → ℕ) tokenOut.key =
        if ctx.tokenInMint = ctx.tokenOutMint then result.tokenInNetAmount.toNat else 0 := by
  rw [Pi.single_apply, h.tokenOut_key]
  by_cases hsame : ctx.tokenInMint = ctx.tokenOutMint
  · have hmint : tokenIn.toMint = tokenOut.toMint :=
      Option.some.inj (h.tokenIn.symm.trans (hsame ▸ h.tokenOut))
    have hauthority : programControlsMint tokenIn Seeds.mintAuthority = true := by
      unfold programControlsMint at hcontrols ⊢
      rw [hmint]
      exact hcontrols
    rw [if_pos hsame, if_pos hsame.symm]
    exact if_pos hauthority
  · rw [if_neg hsame, if_neg fun he => hsame he.symm]

/-- Step 2 succeeds after step 1 exactly if the program can pay. -/
theorem distribute_ok_iff (hc : Calls (TokenCpi.MovesWithin debited credited) l l₁)
    (hpayOut : l₁.HasAccount (ctx.tokenOutAccount payer))
    (hvault : payer ≠ Seeds.offerVaultAuthority)
    (hin : hasTransferFee env.epoch tokenIn = false)
    (hpay : payTokenIn env.epoch (ctx.execParams payer s tokenIn tokenOut result) l₁ = .ok l₂) :
    (∃ l', distributeTokenOut env.epoch tokenOut (ctx.tokenOutAccount Seeds.offerVaultAuthority)
        (ctx.tokenOutAccount payer) Seeds.offerVaultAuthority Seeds.mintAuthority
        result.tokenOutAmount s.maxSupply l₂ = .ok l') ↔
      ctx.CanPayOut tokenOut result s.maxSupply l₁ := by
  have hcalls := payTokenIn_calls hpay
  have hmint : l₂.mintAuthority tokenOut.key = tokenOut.mintAuthority := by
    rw [(hcalls.mono fun _ => TokenCpi.MovesWithin.within).mintAuthority_eq_of_within]
    exact h.mintAuthority_out hc
  refine (distributeTokenOut_ok_iff (hcalls.hasAccount (hc.hasAccount h.has_vaultOut))
    (hcalls.hasAccount hpayOut) h.tokenOut_key.symm h.tokenOut_key.symm rfl hmint).trans ?_
  have hne : ∀ k, Seeds.offerVaultAuthority ≠ k →
      ctx.tokenOutAccount Seeds.offerVaultAuthority ≠ ctx.tokenInAccount k :=
    fun k hk he => hk (congrArg Ata.wallet he)
  have hamount : l₂.amount (ctx.tokenOutAccount Seeds.offerVaultAuthority) =
      l₁.amount (ctx.tokenOutAccount Seeds.offerVaultAuthority) :=
    (payTokenIn_flow (h.freeOfFee_in hin hc) hpay).apply_of_ne (hne _ hvault.symm)
      (hne _ h.boss_ne_vault.symm)
  have hsupply : l₂.supply tokenOut.key + (Pi.single ctx.tokenInMint
      (ctx.execParams payer s tokenIn tokenOut result).burned : Pubkey → ℕ) tokenOut.key =
      l₁.supply tokenOut.key := by
    have hat := (payTokenIn_supply hpay).apply tokenOut.key
    rw [Pi.single_zero, Pi.zero_apply, Nat.add_zero] at hat
    exact hat
  unfold CanDistribute TakeOffer.CanPayOut
  rw [hamount]
  split
  · next hcontrols =>
    rw [h.burned_of_same hcontrols] at hsupply
    refine and_congr_right fun _ => ?_
    omega
  · rfl

/-- An exchange succeeds exactly if the mints withhold nothing, the payer has the amount and
the program can pay; the last does not depend on the payer. -/
theorem exchange_ok_iff (hc : Calls (TokenCpi.MovesWithin debited credited) l l₁)
    (hpayIn : l₁.HasAccount (ctx.tokenInAccount payer))
    (hpayOut : l₁.HasAccount (ctx.tokenOutAccount payer))
    (hvault : payer ≠ Seeds.offerVaultAuthority) :
    (∃ l₂, executeTokenOperations env.epoch (ctx.execParams payer s tokenIn tokenOut result) l₁ =
      .ok l₂) ↔
      hasTransferFee env.epoch tokenIn = false ∧ hasTransferFee env.epoch tokenOut = false ∧
        amount.toNat ≤ l₁.amount (ctx.tokenInAccount payer) ∧
        ctx.CanPayOut tokenOut result s.maxSupply l₁ := by
  have htotal := processOfferCore_total h.priced
  have hacc : (ctx.execParams payer s tokenIn tokenOut result).PaysIn l₁ :=
    ⟨hpayIn, hc.hasAccount h.has_bossIn, hc.hasAccount h.has_vaultIn, rfl, rfl, rfl, rfl,
      TakeOffer.tokenInAccount_ne hvault⟩
  simp only [executeTokenOperations_eq_ok]
  constructor
  · intro hexec
    obtain ⟨l₂, hin, hout, l', hpay, hdist⟩ := hexec
    have hle := (payTokenIn_ok_iff hacc (h.freeOfFee_in hin hc)
      (htotal.trans_lt amount.toNat_lt)).mp ⟨l', hpay⟩
    exact ⟨hin, hout, htotal.symm.trans_le hle,
      (h.distribute_ok_iff hc hpayOut hvault hin hpay).mp ⟨l₂, hdist⟩⟩
  · intro hcan
    obtain ⟨hin, hout, hle, hcan⟩ := hcan
    obtain ⟨l', hpay⟩ := (payTokenIn_ok_iff hacc (h.freeOfFee_in hin hc)
      (htotal.trans_lt amount.toNat_lt)).mpr (htotal.trans_le hle)
    obtain ⟨l₂, hdist⟩ := (h.distribute_ok_iff hc hpayOut hvault hin hpay).mpr hcan
    exact ⟨l₂, hin, hout, l', hpay, hdist⟩

/-- Moving `token_in` to the intermediary leaves what the program can pay. -/
theorem canPayOut_hop (hfee : hasTransferFee env.epoch tokenIn = false)
    (hhop : transferTokens env.epoch (ctx.tokenInAccount ctx.user.key)
      (ctx.tokenInAccount Seeds.permissionlessAuthority) ctx.user.key amount l = .ok l₁) :
    ctx.CanPayOut tokenOut result s.maxSupply l₁ ↔ ctx.CanPayOut tokenOut result s.maxSupply l := by
  have hne : ∀ k, Seeds.offerVaultAuthority ≠ k →
      ctx.tokenOutAccount Seeds.offerVaultAuthority ≠ ctx.tokenInAccount k :=
    fun k hk he => hk (congrArg Ata.wallet he)
  have hfree := h.freeOfFee_in hfee (.refl l : Calls (TokenCpi.MovesWithin [] []) l l)
  refine TakeOffer.canPayOut_congr (congrFun (transferTokens_supply hhop) _) ?_
  exact (transferTokens_flow hhop hfree).apply_of_ne
    (hne _ (ctx.user.ne_authority (by decide)).symm) (hne _ (by decide))

/-- Through the intermediary the exchange succeeds exactly if the user's own does. -/
theorem relay_ok_iff (hin : l.HasAccount (ctx.tokenInAccount Seeds.permissionlessAuthority))
    (hout : l.HasAccount (ctx.tokenOutAccount Seeds.permissionlessAuthority)) :
    (∃ l₁ l₂ l₃, transferTokens env.epoch (ctx.tokenInAccount ctx.user.key)
        (ctx.tokenInAccount Seeds.permissionlessAuthority) ctx.user.key amount l = .ok l₁ ∧
      executeTokenOperations env.epoch
        (ctx.execParams Seeds.permissionlessAuthority s tokenIn tokenOut result) l₁ = .ok l₂ ∧
      transferTokens env.epoch (ctx.tokenOutAccount Seeds.permissionlessAuthority)
        (ctx.tokenOutAccount ctx.user.key) Seeds.permissionlessAuthority result.tokenOutAmount l₂ =
          .ok l₃) ↔
    ∃ l', executeTokenOperations env.epoch (ctx.execParams ctx.user.key s tokenIn tokenOut result)
      l = .ok l' := by
  have huv : ctx.user.key ≠ Seeds.offerVaultAuthority := ctx.user.ne_authority (by decide)
  have hpv : Seeds.permissionlessAuthority ≠ Seeds.offerVaultAuthority := by decide
  have hself : Calls (TokenCpi.MovesWithin [] []) l l := .refl l
  have hhop : ∀ l₁, transferTokens env.epoch (ctx.tokenInAccount ctx.user.key)
      (ctx.tokenInAccount Seeds.permissionlessAuthority) ctx.user.key amount l = .ok l₁ →
      Calls (TokenCpi.MovesWithin [ctx.user.key] [Seeds.permissionlessAuthority]) l l₁ :=
    fun l₁ h₁ => transferTokens_calls h₁ ⟨List.mem_singleton_self _, List.mem_singleton_self _⟩
  rw [h.exchange_ok_iff hself h.has_userIn h.has_userOut huv]
  constructor
  · intro hrelay
    obtain ⟨l₁, l₂, l₃, h₁, h₂, _⟩ := hrelay
    have hc₁ := hhop l₁ h₁
    have hle := (transferTokens_ok_iff env.epoch amount h.has_userIn hin rfl rfl).mp ⟨l₁, h₁⟩
    obtain ⟨hfi, hfo, _, hcan⟩ := (h.exchange_ok_iff hc₁ (hc₁.hasAccount hin)
      (hc₁.hasAccount hout) hpv).mp ⟨l₂, h₂⟩
    exact ⟨hfi, hfo, hle, (h.canPayOut_hop hfi h₁).mp hcan⟩
  · intro hdirect
    obtain ⟨hfi, hfo, hle, hcan⟩ := hdirect
    -- The user's tokens reach the intermediary.
    obtain ⟨l₁, h₁⟩ := (transferTokens_ok_iff env.epoch amount h.has_userIn hin rfl rfl).mpr hle
    have hc₁ := hhop l₁ h₁
    have hne : ctx.tokenInAccount Seeds.permissionlessAuthority ≠ ctx.tokenInAccount ctx.user.key :=
      TakeOffer.tokenInAccount_ne (ctx.user.ne_authority (by decide)).symm
    have hflow := transferTokens_flow h₁ (h.freeOfFee_in hfi hself)
    have hle₁ : amount.toNat ≤ l₁.amount (ctx.tokenInAccount Seeds.permissionlessAuthority) :=
      (Nat.le_add_left _ _).trans_eq (hflow.apply_gained hne).symm
    -- It takes the offer in the user's place.
    obtain ⟨l₂, h₂⟩ := (h.exchange_ok_iff hc₁ (hc₁.hasAccount hin) (hc₁.hasAccount hout) hpv).mpr
      ⟨hfi, hfo, hle₁, (h.canPayOut_hop hfi h₁).mpr hcan⟩
    have hc₂ := executeTokenOperations_calls h₂
    -- What it was paid reaches the user.
    obtain ⟨l₃, h₃⟩ := (transferTokens_ok_iff env.epoch result.tokenOutAmount
      (hc₂.hasAccount (hc₁.hasAccount hout)) (hc₂.hasAccount (hc₁.hasAccount h.has_userOut)) rfl
        rfl).mpr (h.exchange_pays hc₁ hpv hle₁ h₂)
    exact ⟨l₁, l₂, l₃, h₁, h₂, h₃⟩

end TakeChecks

end Exchange

end OnreApp.Offers
