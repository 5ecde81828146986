import OnreApp.Redemption.RedemptionRequests
import OnreApp.Utils.TokenRouting

/-!
# What redemptions do to the ledger

A request moves tokens into the vault, a cancellation moves them back, and a fulfillment
settles them and pays the redeemer. No other wallet is touched, and only a fulfillment mints.
-/
namespace OnreApp.Redemption

open Library.Checked Library.Outcome Offers Program Tokens Utils

variable {env : Env} {w w' : World} {s : State} {o : RedemptionOffer} {r : RedemptionRequest}
  {l₁ l₂ l₃ : Ledger}

theorem RequestCreated.calls {ctx : CreateRedemptionRequest} {amount : UInt64}
    (h : RequestCreated env ctx amount w w' s o l₁) :
    Calls (TokenCpi.MovesWithin [ctx.redeemer.key] [Seeds.redemptionOfferVaultAuthority])
      w.ledger l₁ :=
  transferTokens_calls h.locked ⟨List.mem_singleton_self _, List.mem_singleton_self _⟩

theorem RequestCancelled.redeemer_ne_vault {ctx : CancelRedemptionRequest}
    (h : RequestCancelled env ctx w w' s o r l₁ l₂) :
    ctx.redeemer ≠ Seeds.redemptionOfferVaultAuthority := by
  rw [h.redeemer]
  exact r.redeemer.ne_authority (by decide)

theorem RequestCancelled.calls {ctx : CancelRedemptionRequest}
    (h : RequestCancelled env ctx w w' s o r l₁ l₂) :
    Calls (TokenCpi.MovesWithin [Seeds.redemptionOfferVaultAuthority] [ctx.redeemer])
      w.ledger l₂ := by
  refine (Calls.of_initIfNeeded h.redeemerAccount).trans (transferTokens_calls h.returned ?_)
  exact ⟨List.mem_singleton_self _, List.mem_singleton_self _⟩

/-! ## Fulfillment -/

theorem settleTokenIn_calls {epoch : UInt64} {p : ExecuteRedemptionOpsParams} {l l' : Ledger}
    (h : settleTokenIn epoch p l = .ok l') :
    Calls (TokenCpi.MovesWithin [p.vaultTokenInAccount.wallet] [p.bossTokenInAccount.wallet])
      l l' := by
  unfold settleTokenIn at h
  split at h
  · simp only [bind_eq_ok] at h
    obtain ⟨l₁, h₁, h₂⟩ := h
    have hwallet : p.vaultTokenInAccount.wallet ∈ [p.vaultTokenInAccount.wallet] :=
      List.mem_singleton_self _
    refine Calls.trans (burnTokens_calls h₁ hwallet) (payFee_calls h₂ ?_)
    exact ⟨List.mem_singleton_self _, List.mem_singleton_self _⟩
  · simp only [bind_eq_ok] at h
    obtain ⟨_, _, h₁⟩ := h
    exact transferTokens_calls h₁ ⟨List.mem_singleton_self _, List.mem_singleton_self _⟩

/-- Burned or handed over, the whole request leaves the vault. -/
theorem settleTokenIn_debit {epoch : UInt64} {p : ExecuteRedemptionOpsParams} {l l' : Ledger}
    {a : Ata} (h : settleTokenIn epoch p l = .ok l') (ha : a ≠ p.bossTokenInAccount) :
    l'.amount a + (if a = p.vaultTokenInAccount
      then p.tokenInNetAmount.toNat + p.tokenInFeeAmount.toNat else 0) = l.amount a := by
  unfold settleTokenIn at h
  split at h
  · simp only [bind_eq_ok] at h
    obtain ⟨l₁, h₁, h₂⟩ := h
    have hburn := burnTokens_debit (a := a) h₁
    split at h₂
    · have htransfer := transferTokens_debit h₂ ha
      by_cases hv : a = p.vaultTokenInAccount
      · rw [if_pos hv] at hburn htransfer ⊢
        omega
      · rw [if_neg hv] at hburn htransfer ⊢
        omega
    · next hfee =>
      have hzero : p.tokenInFeeAmount.toNat = 0 := by
        rw [UInt64.lt_iff_toNat_lt] at hfee
        exact Nat.eq_zero_of_not_pos hfee
      rw [pure_eq_ok] at h₂
      rw [hzero, Nat.add_zero, ← h₂]
      exact hburn
  · simp only [bind_eq_ok, okOr_eq_ok, checkedAdd_eq_some] at h
    obtain ⟨_, ⟨hfits, rfl⟩, h₁⟩ := h
    have htransfer := transferTokens_debit h₁ ha
    rwa [toNat_ofNat_of_lt hfits] at htransfer

theorem executeRedemptionOperations_eq_ok {epoch : UInt64} {p : ExecuteRedemptionOpsParams}
    {l l' : Ledger} : executeRedemptionOperations epoch p l = .ok l' ↔
      ∃ l₁, settleTokenIn epoch p l = .ok l₁ ∧
        distributeTokenOut epoch p.tokenOutMint p.vaultTokenOutAccount p.userTokenOutAccount
          p.redemptionVaultAuthority p.mintAuthorityPda p.tokenOutAmount p.tokenOutMaxSupply l₁ =
            .ok l' :=
  bind_eq_ok _ _ _

section Fulfilled

variable {ctx : FulfillRedemptionRequest} {offer : Offer} {tokenIn tokenOut : MintAccount}
  {result : RedemptionProcessResult}
  (h : RequestFulfilled env ctx w w' s offer o r tokenIn tokenOut result l₁ l₂ l₃)
include h

theorem RequestFulfilled.boss_ne_vault : ctx.boss ≠ Seeds.redemptionOfferVaultAuthority := by
  rw [← h.boss]
  exact s.boss.ne_authority (by decide)

theorem RequestFulfilled.redeemer_ne_vault :
    ctx.redeemer ≠ Seeds.redemptionOfferVaultAuthority := by
  rw [h.redeemer]
  exact r.redeemer.ne_authority (by decide)

theorem RequestFulfilled.calls :
    Calls (TokenCpi.Within [Seeds.redemptionOfferVaultAuthority] [ctx.boss, ctx.redeemer])
      w.ledger l₃ := by
  obtain ⟨l, hsettle, hpay⟩ := executeRedemptionOperations_eq_ok.mp h.executed
  refine (Calls.of_initIfNeeded h.userAccount).trans ((Calls.of_initIfNeeded h.bossAccount).trans
    (((settleTokenIn_calls hsettle).mono ?_).trans ((distributeTokenOut_calls hpay).mono ?_)))
  · exact fun c hc => hc.within.mono (List.Subset.refl _)
      (List.cons_subset.mpr ⟨List.mem_cons_self, List.nil_subset _⟩)
  · exact fun c hc => hc.mono (List.Subset.refl _) (List.subset_cons_self _ _)

end Fulfilled

end OnreApp.Redemption
