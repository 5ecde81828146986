import OnreApp.Library.Checked
import OnreApp.Library.Rounding
import OnreApp.Tokens.Calls

/-!
# Token utilities

Prices, fees and the routing of a token exchange: whichever mint the program controls is
burned or minted, the other moves between accounts.
-/
namespace OnreApp.Utils

open Library.Checked Library.Outcome Library.Rounding Tokens

def maxTokenDecimals : UInt8 := 18

/-- `10_u128.pow(d)` with overflow checks on. -/
def pow10 (d : ℕ) : Except Error ℕ := do
  require (10 ^ d < 2 ^ 128) .panic
  pure (10 ^ d)

def calculateTokenOutAmount (tokenInAmount price : UInt64)
    (tokenInDecimals tokenOutDecimals : UInt8) : Except Error UInt64 := do
  require (0 < price) (.tokenUtils .zeroPriceNotAllowed)
  require (tokenInDecimals ≤ maxTokenDecimals) (.tokenUtils .decimalsExceedMax)
  require (tokenOutDecimals ≤ maxTokenDecimals) (.tokenUtils .decimalsExceedMax)
  let outScale ← pow10 (tokenOutDecimals.toNat + priceDecimals)
  let numerator ← okOr (checkedMul 128 tokenInAmount.toNat outScale) (.tokenUtils .mathOverflow)
  let inScale ← pow10 tokenInDecimals.toNat
  let denominator ← okOr (checkedMul 128 price.toNat inScale) (.tokenUtils .mathOverflow)
  let result := numerator / denominator
  require (result < 2 ^ 64) (.tokenUtils .resultOverflow)
  pure (UInt64.ofNat result)

structure CalculateFeeResult where
  tokenInFeeAmount : UInt64
  tokenInNetAmount : UInt64
  deriving DecidableEq

def calculateFees (tokenInAmount : UInt64) (feeBasisPoints : UInt16) :
    Except Error CalculateFeeResult := do
  let scaled ← okOr (checkedMul 128 tokenInAmount.toNat feeBasisPoints.toNat)
    (.tokenUtils .mathOverflow)
  let adjusted ← okOr (checkedAdd 128 scaled (maxBasisPoints - 1)) (.tokenUtils .mathOverflow)
  let tokenFeeAmount := UInt64.ofNat (adjusted / maxBasisPoints)
  let tokenNetAmount ← okOr (checkedSub tokenInAmount.toNat tokenFeeAmount.toNat)
    (.tokenUtils .mathOverflow)
  pure { tokenInFeeAmount := tokenFeeAmount, tokenInNetAmount := UInt64.ofNat tokenNetAmount }

def transferTokens (epoch : UInt64) (source destination : Ata) (authority : Pubkey)
    (amount : UInt64) (l : Ledger) : Except Error Ledger :=
  l.transferChecked epoch source destination authority amount

/-- The cap is compared with the supply the mint had when it was loaded; 0 is no cap. -/
def checkMaxSupply (mint : MintAccount) (amount maxSupply : UInt64) : Except Error Unit :=
  if 0 < maxSupply then do
    let newSupply ← okOr (checkedAdd 64 mint.supply.toNat amount.toNat)
      (.tokenUtils .mathOverflow)
    require (newSupply ≤ maxSupply.toNat) (.tokenUtils .maxSupplyExceeded)
  else pure ()

def mintTokens (mint : MintAccount) (toAccount : Ata) (authority : Pubkey)
    (amount maxSupply : UInt64) (l : Ledger) : Except Error Ledger := do
  checkMaxSupply mint amount maxSupply
  l.mintToChecked mint.key toAccount authority amount

def burnTokens (source : Ata) (authority : Pubkey) (amount : UInt64) (l : Ledger) :
    Except Error Ledger :=
  l.burnChecked source authority amount

def programControlsMint (mint : MintAccount) (mintAuthorityPda : Pubkey) : Bool :=
  mint.mintAuthority = some mintAuthorityPda

def hasTransferFee (epoch : UInt64) (mint : MintAccount) : Bool :=
  match mint.transferFeeConfig with
  | none => false
  | some config =>
    let fee := config.getEpochFee epoch
    0 < fee.transferFeeBasisPoints || 0 < fee.maximumFee

structure ExecTokenOpsParams where
  tokenInMint : MintAccount
  tokenInNetAmount : UInt64
  tokenInFeeAmount : UInt64
  tokenInAuthority : Pubkey
  tokenInSourceAccount : Ata
  tokenInDestinationAccount : Ata
  tokenInBurnAccount : Ata
  tokenInBurnAuthority : Pubkey
  tokenOutMint : MintAccount
  tokenOutAmount : UInt64
  tokenOutAuthority : Pubkey
  tokenOutSourceAccount : Ata
  tokenOutDestinationAccount : Ata
  mintAuthorityPda : Pubkey
  tokenOutMaxSupply : UInt64

/-- Step 1 of `execute_token_operations`: the user pays `token_in`. -/
def payTokenIn (epoch : UInt64) (p : ExecTokenOpsParams) (l : Ledger) : Except Error Ledger :=
  if programControlsMint p.tokenInMint p.mintAuthorityPda then do
    let l ← transferTokens epoch p.tokenInSourceAccount p.tokenInBurnAccount p.tokenInAuthority
      p.tokenInNetAmount l
    let l ← burnTokens p.tokenInBurnAccount p.tokenInBurnAuthority p.tokenInNetAmount l
    if 0 < p.tokenInFeeAmount then
      transferTokens epoch p.tokenInSourceAccount p.tokenInDestinationAccount
        p.tokenInAuthority p.tokenInFeeAmount l
    else pure l
  else do
    let totalAmount ← okOr (checkedAdd 64 p.tokenInNetAmount.toNat p.tokenInFeeAmount.toNat)
      (.tokenUtils .mathOverflow)
    transferTokens epoch p.tokenInSourceAccount p.tokenInDestinationAccount p.tokenInAuthority
      (UInt64.ofNat totalAmount) l

/-- Step 2 of `execute_token_operations`, and of `execute_redemption_operations`: the
program pays `token_out`. -/
def distributeTokenOut (epoch : UInt64) (mint : MintAccount) (source destination : Ata)
    (authority mintAuthorityPda : Pubkey) (amount maxSupply : UInt64) (l : Ledger) :
    Except Error Ledger :=
  if programControlsMint mint mintAuthorityPda then
    mintTokens mint destination mintAuthorityPda amount maxSupply l
  else transferTokens epoch source destination authority amount l

def executeTokenOperations (epoch : UInt64) (p : ExecTokenOpsParams) (l : Ledger) :
    Except Error Ledger := do
  require (¬ hasTransferFee epoch p.tokenInMint) (.tokenUtils .transferFeeNotSupported)
  require (¬ hasTransferFee epoch p.tokenOutMint) (.tokenUtils .transferFeeNotSupported)
  let l ← payTokenIn epoch p l
  distributeTokenOut epoch p.tokenOutMint p.tokenOutSourceAccount p.tokenOutDestinationAccount
    p.tokenOutAuthority p.mintAuthorityPda p.tokenOutAmount p.tokenOutMaxSupply l

/-! ## Calls and checks -/

section Calls

variable {l l' : Ledger} {epoch : UInt64} {source destination : Ata} {authority : Pubkey}
  {mint : MintAccount} {amount maxSupply : UInt64}

theorem transferTokens_eq_ok : transferTokens epoch source destination authority amount l = .ok l' ↔
    ∃ h, l.transfer epoch source destination authority amount h = l' :=
  Ledger.transferChecked_eq_ok

theorem burnTokens_eq_ok : burnTokens source authority amount l = .ok l' ↔
    ∃ h, l.burn source authority amount h = l' :=
  Ledger.burnChecked_eq_ok

theorem checkMaxSupply_eq_ok {u : Unit} : checkMaxSupply mint amount maxSupply = .ok u ↔
    (0 < maxSupply → mint.supply.toNat + amount.toNat ≤ maxSupply.toNat) := by
  unfold checkMaxSupply
  split
  · next hpos =>
    simp only [bind_eq_ok, okOr_eq_ok, checkedAdd_eq_some, require_eq_ok]
    constructor
    · rintro ⟨_, ⟨_, rfl⟩, h⟩ _
      exact h
    · intro h
      exact ⟨_, ⟨(h hpos).trans_lt maxSupply.toNat_lt, rfl⟩, h hpos⟩
  · next hpos => exact iff_of_true rfl fun h => absurd h hpos

/-- A mint keeps to the cap, if there is one. -/
theorem mintTokens_eq_ok : mintTokens mint destination authority amount maxSupply l = .ok l' ↔
    (0 < maxSupply → mint.supply.toNat + amount.toNat ≤ maxSupply.toNat) ∧
      ∃ h, l.mintTo mint.key destination authority amount h = l' := by
  simp only [mintTokens, bind_eq_ok, checkMaxSupply_eq_ok, Ledger.mintToChecked_eq_ok]
  constructor
  · intro h
    obtain ⟨_, h⟩ := h
    exact h
  · intro h
    exact ⟨⟨⟩, h⟩

end Calls

/-- The mint is under the program's authority exactly if the ledger says so. -/
theorem programControlsMint_iff {l : Ledger} {mint : MintAccount} {k mintAuthorityPda : Pubkey}
    (hm : l.mints.lookup k = some mint.toMint) :
    programControlsMint mint mintAuthorityPda = true ↔
      l.mintAuthority k = some mintAuthorityPda := by
  rw [Ledger.mintAuthority, hm]
  exact decide_eq_true_iff

/-- Fee and net amount always make up the amount. -/
theorem calculateFees_total {amount : UInt64} {bps : UInt16} {r : CalculateFeeResult}
    (h : calculateFees amount bps = .ok r) :
    r.tokenInNetAmount.toNat + r.tokenInFeeAmount.toNat = amount.toNat := by
  simp only [calculateFees, bind_eq_ok, okOr_eq_ok, checkedSub_eq_some, pure_eq_ok] at h
  obtain ⟨_, _, adjusted, _, _, ⟨hle, rfl⟩, rfl⟩ := h
  have hlt := amount.toNat_lt
  show (UInt64.ofNat (amount.toNat - (UInt64.ofNat (adjusted / maxBasisPoints)).toNat)).toNat +
    (UInt64.ofNat (adjusted / maxBasisPoints)).toNat = amount.toNat
  rw [toNat_ofNat_of_lt (by omega)]
  omega

/-! ## Errors -/

section Errors

variable {e : Error} {l : Ledger} {epoch : UInt64} {source destination : Ata}
  {authority mintAuthorityPda : Pubkey} {mint : MintAccount} {amount price maxSupply : UInt64}
  {bps : UInt16} {inDec outDec : UInt8} {p : ExecTokenOpsParams} {d : ℕ}

theorem pow10_avoids (hp : .panic ≠ e) : Avoids e (pow10 d) :=
  avoids_bind (avoids_require _ hp) fun _ _ => avoids_pure _ _

theorem calculateFees_avoids (ht : ∀ c, .tokenUtils c ≠ e) :
    Avoids e (calculateFees amount bps) := by
  refine avoids_bind (avoids_okOr _ (ht _)) fun _ _ => ?_
  refine avoids_bind (avoids_okOr _ (ht _)) fun _ _ => ?_
  exact avoids_bind (avoids_okOr _ (ht _)) fun _ _ => avoids_pure _ _

theorem calculateTokenOutAmount_avoids (hp : .panic ≠ e) (ht : ∀ c, .tokenUtils c ≠ e) :
    Avoids e (calculateTokenOutAmount amount price inDec outDec) := by
  refine avoids_bind (avoids_require _ (ht _)) fun _ _ => ?_
  refine avoids_bind (avoids_require _ (ht _)) fun _ _ => ?_
  refine avoids_bind (avoids_require _ (ht _)) fun _ _ => ?_
  refine avoids_bind (pow10_avoids hp) fun _ _ => ?_
  refine avoids_bind (avoids_okOr _ (ht _)) fun _ _ => ?_
  refine avoids_bind (pow10_avoids hp) fun _ _ => ?_
  refine avoids_bind (avoids_okOr _ (ht _)) fun _ _ => ?_
  exact avoids_bind (avoids_require _ (ht _)) fun _ _ => avoids_pure _ _

theorem mintTokens_avoids (hl : .tokenProgram ≠ e) (ht : ∀ c, .tokenUtils c ≠ e) :
    Avoids e (mintTokens mint destination authority amount maxSupply l) := by
  refine avoids_bind ?_ fun _ _ => Ledger.mintToChecked_avoids hl
  unfold checkMaxSupply
  split
  · exact avoids_bind (avoids_okOr _ (ht _)) fun _ _ => avoids_require _ (ht _)
  · exact avoids_pure _ _

theorem distributeTokenOut_avoids (hl : .tokenProgram ≠ e) (ht : ∀ c, .tokenUtils c ≠ e) :
    Avoids e (distributeTokenOut epoch mint source destination authority mintAuthorityPda amount
      maxSupply l) := by
  unfold distributeTokenOut
  split
  · exact mintTokens_avoids hl ht
  · exact Ledger.transferChecked_avoids hl

theorem payTokenIn_avoids (hl : .tokenProgram ≠ e) (ht : ∀ c, .tokenUtils c ≠ e) :
    Avoids e (payTokenIn epoch p l) := by
  unfold payTokenIn
  split
  · refine avoids_bind (Ledger.transferChecked_avoids hl) fun _ _ => ?_
    refine avoids_bind (Ledger.burnChecked_avoids hl) fun _ _ => ?_
    split
    · exact Ledger.transferChecked_avoids hl
    · exact avoids_pure _ _
  · exact avoids_bind (avoids_okOr _ (ht _)) fun _ _ => Ledger.transferChecked_avoids hl

theorem executeTokenOperations_avoids (hl : .tokenProgram ≠ e) (ht : ∀ c, .tokenUtils c ≠ e) :
    Avoids e (executeTokenOperations epoch p l) := by
  refine avoids_bind (avoids_require _ (ht _)) fun _ _ => ?_
  refine avoids_bind (avoids_require _ (ht _)) fun _ _ => ?_
  exact avoids_bind (payTokenIn_avoids hl ht) fun _ _ => distributeTokenOut_avoids hl ht

end Errors

/-! ## Prices and fees in exact arithmetic -/

/-- The exact fee, rounded up. -/
def feeOf (amount bps : ℕ) : ℕ := (amount * bps) ⌈/⌉ maxBasisPoints

/-- What is left after the fee. -/
def netOf (amount bps : ℕ) : ℕ := amount * (maxBasisPoints - bps) / maxBasisPoints

theorem maxBasisPoints_pos : 0 < maxBasisPoints := by decide

/-- The code rounds up by adding the denominator less one. -/
theorem div_eq_feeOf (amount bps : ℕ) :
    (amount * bps + (maxBasisPoints - 1)) / maxBasisPoints = feeOf amount bps := by
  rw [feeOf, Nat.ceilDiv_eq_add_pred_div, Nat.add_sub_assoc maxBasisPoints_pos]

theorem feeOf_le {amount bps : ℕ} (h : bps ≤ maxBasisPoints) : feeOf amount bps ≤ amount :=
  ceilDiv_share_le maxBasisPoints_pos h

theorem sub_feeOf {amount bps : ℕ} (h : bps ≤ maxBasisPoints) :
    amount - feeOf amount bps = netOf amount bps :=
  sub_ceilDiv_share maxBasisPoints_pos h

theorem netOf_add_feeOf {amount bps : ℕ} (h : bps ≤ maxBasisPoints) :
    netOf amount bps + feeOf amount bps = amount := by
  have hle : feeOf amount bps ≤ amount := feeOf_le h
  rw [← sub_feeOf h]
  omega

theorem netOf_le {amount bps : ℕ} (h : bps ≤ maxBasisPoints) : netOf amount bps ≤ amount := by
  have : netOf amount bps + feeOf amount bps = amount := netOf_add_feeOf h
  omega

/-- What `calculate_fees` leaves of any amount, with its fee narrowed to 64 bits. -/
def netAfterFee (amount bps : ℕ) : ℕ := amount - feeOf amount bps % 2 ^ 64

theorem calculateFees_net {amount : UInt64} {bps : UInt16} {r : CalculateFeeResult}
    (h : calculateFees amount bps = .ok r) :
    r.tokenInNetAmount.toNat = netAfterFee amount.toNat bps.toNat := by
  simp only [calculateFees, bind_eq_ok, okOr_eq_ok, checkedMul_eq_some, checkedAdd_eq_some,
    checkedSub_eq_some, pure_eq_ok] at h
  obtain ⟨_, ⟨_, rfl⟩, _, ⟨_, rfl⟩, _, ⟨_, rfl⟩, rfl⟩ := h
  rw [div_eq_feeOf]
  exact toNat_ofNat_of_lt ((Nat.sub_le _ _).trans_lt amount.toNat_lt)

theorem pow10_eq_ok {d r : ℕ} : pow10 d = .ok r ↔ 10 ^ d < 2 ^ 128 ∧ r = 10 ^ d := by
  simp only [pow10, bind_eq_ok, require_eq_ok, pure_eq_ok]
  constructor
  · rintro ⟨_, h, rfl⟩
    exact ⟨h, rfl⟩
  · rintro ⟨h, rfl⟩
    exact ⟨⟨⟩, h, rfl⟩

/-- With a fee of at most 100% the computation never fails and is exact. -/
theorem calculateFees_eq_ok {amount : UInt64} {bps : UInt16} (h : bps.toNat ≤ maxBasisPoints)
    {r : CalculateFeeResult} : calculateFees amount bps = .ok r ↔
      r.tokenInFeeAmount.toNat = feeOf amount.toNat bps.toNat ∧
        r.tokenInNetAmount.toNat = netOf amount.toNat bps.toNat := by
  have hle : feeOf amount.toNat bps.toNat ≤ amount.toNat := feeOf_le h
  have hlt := amount.toNat_lt
  have hmul : amount.toNat * bps.toNat ≤ 2 ^ 64 * maxBasisPoints := Nat.mul_le_mul hlt.le h
  have hadd : amount.toNat * bps.toNat + (maxBasisPoints - 1) < 2 ^ 128 :=
    (Nat.add_le_add_right hmul _).trans_lt (by decide)
  have hfee : (UInt64.ofNat (feeOf amount.toNat bps.toNat)).toNat =
      feeOf amount.toNat bps.toNat := toNat_ofNat_of_lt (hle.trans_lt hlt)
  have hnet : (UInt64.ofNat (netOf amount.toNat bps.toNat)).toNat =
      netOf amount.toNat bps.toNat := toNat_ofNat_of_lt ((netOf_le h).trans_lt hlt)
  simp only [calculateFees, bind_eq_ok, okOr_eq_ok, checkedMul_eq_some, checkedAdd_eq_some,
    checkedSub_eq_some, pure_eq_ok]
  constructor
  · rintro ⟨_, ⟨_, rfl⟩, _, ⟨_, rfl⟩, _, ⟨_, rfl⟩, rfl⟩
    rw [div_eq_feeOf]
    refine ⟨hfee, ?_⟩
    rw [hfee, sub_feeOf h, hnet]
  · rintro ⟨hf, hn⟩
    refine ⟨_, ⟨(Nat.le_add_right _ _).trans_lt hadd, rfl⟩, _, ⟨hadd, rfl⟩, _, ⟨?_, rfl⟩, ?_⟩
    · rw [div_eq_feeOf, hfee]
      exact hle
    · rw [div_eq_feeOf, hfee, sub_feeOf h, ofNat_eq_of_toNat hf, ofNat_eq_of_toNat hn]

theorem calculateTokenOutAmount_eq_ok {amount price out : UInt64} {inDec outDec : UInt8} :
    calculateTokenOutAmount amount price inDec outDec = .ok out ↔
      0 < price.toNat ∧ inDec.toNat ≤ 18 ∧ outDec.toNat ≤ 18 ∧
        amount.toNat * 10 ^ (outDec.toNat + priceDecimals) < 2 ^ 128 ∧
        out.toNat = amount.toNat * 10 ^ (outDec.toNat + priceDecimals) /
          (price.toNat * 10 ^ inDec.toNat) := by
  have hle : ∀ d : UInt8, d ≤ maxTokenDecimals ↔ d.toNat ≤ 18 := fun d => UInt8.le_iff_toNat_le
  have hpos : 0 < price ↔ 0 < price.toNat := UInt64.lt_iff_toNat_lt
  have hden : inDec.toNat ≤ 18 → price.toNat * 10 ^ inDec.toNat < 2 ^ 128 := fun h => by
    have hpow : 10 ^ inDec.toNat ≤ 10 ^ 18 := Nat.pow_le_pow_right (by decide) h
    exact (Nat.mul_le_mul price.toNat_lt.le hpow).trans_lt (by decide)
  simp only [calculateTokenOutAmount, bind_eq_ok, require_eq_ok, okOr_eq_ok, pow10_eq_ok,
    checkedMul_eq_some, pure_eq_ok, hle, hpos]
  constructor
  · rintro ⟨_, hp, _, hi, _, ho, _, ⟨_, rfl⟩, _, ⟨hn, rfl⟩, _, ⟨_, rfl⟩, _, ⟨_, rfl⟩, _, hr, rfl⟩
    exact ⟨hp, hi, ho, hn, toNat_ofNat_of_lt hr⟩
  · rintro ⟨hp, hi, ho, hn, hr⟩
    refine ⟨⟨⟩, hp, ⟨⟩, hi, ⟨⟩, ho, _, ⟨?_, rfl⟩, _, ⟨hn, rfl⟩, _, ⟨?_, rfl⟩, _,
      ⟨hden hi, rfl⟩, ⟨⟩, ?_, ofNat_eq_of_toNat hr⟩
    · exact (Nat.pow_le_pow_right (by decide)
        (Nat.add_le_add_right ho priceDecimals)).trans_lt (by decide)
    · exact (Nat.pow_le_pow_right (by decide) hi).trans_lt (by decide)
    · rw [← hr]
      exact out.toNat_lt

end OnreApp.Utils
