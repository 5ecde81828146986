import OnreApp.Offers.OfferUtils

/-!
# Pricing and paying a redemption
-/
namespace OnreApp.Redemption

open Library.Checked Library.Outcome Offers Program Tokens Utils

structure RedemptionProcessResult where
  price : UInt64
  tokenInNetAmount : UInt64
  tokenInFeeAmount : UInt64
  tokenOutAmount : UInt64
  deriving DecidableEq

/-- The conversion inside `process_redemption_core`: the net amount times the price, moved
from the decimals of `token_in` to those of `token_out`. -/
def redemptionTokenOut (tokenInNetAmount price : UInt64)
    (tokenInDecimals tokenOutDecimals : UInt8) :
    Except Error UInt64 := do
  let priced ← okOr (checkedMul 128 tokenInNetAmount.toNat price.toNat)
    (.redemptionCore .overflowError)
  let outScale ← pow10 tokenOutDecimals.toNat
  let numerator ← okOr (checkedMul 128 priced outScale) (.redemptionCore .overflowError)
  let inScale ← pow10 tokenInDecimals.toNat
  let priceScale ← pow10 priceDecimals
  let denominator ← okOr (checkedMul 128 inScale priceScale) (.redemptionCore .overflowError)
  let result := numerator / denominator
  require (result < 2 ^ 64) (.redemptionCore .overflowError)
  pure (UInt64.ofNat result)

def processRedemptionCore (env : Env) (offer : Offer) (tokenInAmount : UInt64)
    (tokenInMint tokenOutMint : MintAccount) (redemptionFeeBasisPoints : UInt16) :
    Except Error RedemptionProcessResult := do
  let price ← currentPrice env offer
  let feeAmounts ← calculateFees tokenInAmount redemptionFeeBasisPoints
  let tokenOutAmount ← redemptionTokenOut feeAmounts.tokenInNetAmount price tokenInMint.decimals
    tokenOutMint.decimals
  pure { price, tokenInNetAmount := feeAmounts.tokenInNetAmount,
         tokenInFeeAmount := feeAmounts.tokenInFeeAmount, tokenOutAmount }

structure ExecuteRedemptionOpsParams where
  tokenInMint : MintAccount
  tokenInNetAmount : UInt64
  tokenInFeeAmount : UInt64
  vaultTokenInAccount : Ata
  bossTokenInAccount : Ata
  redemptionVaultAuthority : Pubkey
  tokenOutMint : MintAccount
  tokenOutAmount : UInt64
  vaultTokenOutAccount : Ata
  userTokenOutAccount : Ata
  mintAuthorityPda : Pubkey
  tokenOutMaxSupply : UInt64

/-- Step 1 of `execute_redemption_operations`: burn `token_in`, or hand it to the boss. -/
def settleTokenIn (epoch : UInt64) (p : ExecuteRedemptionOpsParams) (l : Ledger) :
    Except Error Ledger :=
  if programControlsMint p.tokenInMint p.mintAuthorityPda then do
    let l ← burnTokens p.vaultTokenInAccount p.redemptionVaultAuthority p.tokenInNetAmount l
    if 0 < p.tokenInFeeAmount then
      transferTokens epoch p.vaultTokenInAccount p.bossTokenInAccount p.redemptionVaultAuthority
        p.tokenInFeeAmount l
    else pure l
  else do
    let totalAmount ← okOr (checkedAdd 64 p.tokenInNetAmount.toNat p.tokenInFeeAmount.toNat)
      (.redemptionCore .overflowError)
    transferTokens epoch p.vaultTokenInAccount p.bossTokenInAccount p.redemptionVaultAuthority
      (UInt64.ofNat totalAmount) l

def executeRedemptionOperations (epoch : UInt64) (p : ExecuteRedemptionOpsParams) (l : Ledger) :
    Except Error Ledger := do
  let l ← settleTokenIn epoch p l
  distributeTokenOut epoch p.tokenOutMint p.vaultTokenOutAccount p.userTokenOutAccount
    p.redemptionVaultAuthority p.mintAuthorityPda p.tokenOutAmount p.tokenOutMaxSupply l

/-! ## Errors -/

section Errors

variable {e : Error} {env : Env} {offer : Offer} {l : Ledger} {epoch : UInt64}
  {tokenIn tokenOut : MintAccount} {amount price : UInt64} {bps : UInt16} {inDec outDec : UInt8}
  {p : ExecuteRedemptionOpsParams}

theorem redemptionTokenOut_avoids (hp : .panic ≠ e) (hr : ∀ c, .redemptionCore c ≠ e) :
    Avoids e (redemptionTokenOut amount price inDec outDec) := by
  refine avoids_bind (avoids_okOr _ (hr _)) fun _ _ => ?_
  refine avoids_bind (pow10_avoids hp) fun _ _ => ?_
  refine avoids_bind (avoids_okOr _ (hr _)) fun _ _ => ?_
  refine avoids_bind (pow10_avoids hp) fun _ _ => ?_
  refine avoids_bind (pow10_avoids hp) fun _ _ => ?_
  refine avoids_bind (avoids_okOr _ (hr _)) fun _ _ => ?_
  exact avoids_bind (avoids_require _ (hr _)) fun _ _ => avoids_pure _ _

/-- Pricing a redemption fails with what pricing the offer fails with, or by itself. -/
theorem processRedemptionCore_avoids (hprice : Avoids e (currentPrice env offer))
    (hp : .panic ≠ e) (ht : ∀ c, .tokenUtils c ≠ e) (hr : ∀ c, .redemptionCore c ≠ e) :
    Avoids e (processRedemptionCore env offer amount tokenIn tokenOut bps) := by
  refine avoids_bind hprice fun _ _ => ?_
  refine avoids_bind (calculateFees_avoids ht) fun _ _ => ?_
  exact avoids_bind (redemptionTokenOut_avoids hp hr) fun _ _ => avoids_pure _ _

theorem executeRedemptionOperations_avoids (hl : .tokenProgram ≠ e)
    (ht : ∀ c, .tokenUtils c ≠ e) (hr : ∀ c, .redemptionCore c ≠ e) :
    Avoids e (executeRedemptionOperations epoch p l) := by
  refine avoids_bind ?_ fun _ _ => distributeTokenOut_avoids hl ht
  unfold settleTokenIn
  split
  · refine avoids_bind (Ledger.burnChecked_avoids hl) fun _ _ => ?_
    split
    · exact Ledger.transferChecked_avoids hl
    · exact avoids_pure _ _
  · exact avoids_bind (avoids_okOr _ (hr _)) fun _ _ => Ledger.transferChecked_avoids hl

end Errors

/-! ## The conversion in exact arithmetic -/

/-- What the conversion returns is exact, whatever the decimals. -/
theorem redemptionTokenOut_ok {net price out : UInt64} {inDec outDec : UInt8}
    (h : redemptionTokenOut net price inDec outDec = .ok out) :
    out.toNat = net.toNat * price.toNat * 10 ^ outDec.toNat /
      10 ^ (inDec.toNat + priceDecimals) := by
  simp only [redemptionTokenOut, bind_eq_ok, okOr_eq_ok, pow10_eq_ok, checkedMul_eq_some,
    require_eq_ok, pure_eq_ok] at h
  obtain ⟨_, ⟨_, rfl⟩, _, ⟨_, rfl⟩, _, ⟨_, rfl⟩, _, ⟨_, rfl⟩, _, ⟨_, rfl⟩, _, ⟨_, rfl⟩, _, hr,
    rfl⟩ := h
  rw [toNat_ofNat_of_lt hr, Nat.pow_add]

/-- Where the decimals of both tokens are at most 18 only the amounts can overflow. -/
theorem redemptionTokenOut_eq_ok {net price out : UInt64} {inDec outDec : UInt8}
    (hi : inDec.toNat ≤ 18) (ho : outDec.toNat ≤ 18) :
    redemptionTokenOut net price inDec outDec = .ok out ↔
      net.toNat * price.toNat * 10 ^ outDec.toNat < 2 ^ 128 ∧
        out.toNat = net.toNat * price.toNat * 10 ^ outDec.toNat /
          10 ^ (inDec.toNat + priceDecimals) := by
  have hpow : ∀ {d : ℕ}, d ≤ 27 → 10 ^ d < 2 ^ 128 := fun h =>
    (Nat.pow_le_pow_right (by decide) h).trans_lt (by decide)
  have hscale : 10 ^ inDec.toNat * 10 ^ priceDecimals = 10 ^ (inDec.toNat + priceDecimals) :=
    (Nat.pow_add ..).symm
  have hprice : net.toNat * price.toNat < 2 ^ 128 :=
    (Nat.mul_lt_mul'' net.toNat_lt price.toNat_lt).trans_le (by decide)
  simp only [redemptionTokenOut, bind_eq_ok, okOr_eq_ok, pow10_eq_ok, checkedMul_eq_some,
    require_eq_ok, pure_eq_ok]
  constructor
  · rintro ⟨_, ⟨_, rfl⟩, _, ⟨_, rfl⟩, _, ⟨hn, rfl⟩, _, ⟨_, rfl⟩, _, ⟨_, rfl⟩, _, ⟨_, rfl⟩, _, hr,
      rfl⟩
    rw [hscale] at hr ⊢
    exact ⟨hn, toNat_ofNat_of_lt hr⟩
  · rintro ⟨hn, hr⟩
    refine ⟨_, ⟨hprice, rfl⟩, _, ⟨hpow (by omega), rfl⟩, _, ⟨hn, rfl⟩, _, ⟨hpow (by omega), rfl⟩,
      _, ⟨hpow (by decide), rfl⟩, _, ⟨?_, rfl⟩, ⟨⟩, ?_, ?_⟩
    · rw [hscale]
      exact hpow (by rw [priceDecimals]; omega)
    · rw [hscale, ← hr]
      exact out.toNat_lt
    · rw [hscale]
      exact ofNat_eq_of_toNat hr

end OnreApp.Redemption
