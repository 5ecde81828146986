import OnreApp.Offers.StepPrice
import OnreApp.Redemption.Book
import OnreApp.Redemption.RedemptionLedger
import OnreApp.Utils.ExactRouting

/-!
# Resolving a request, exactly

What a cancellation and a fulfillment move between all the accounts at once, where transfers
withhold nothing.
-/
namespace OnreApp.Redemption

open Library.Balance Library.Checked Library.Outcome Offers Program Tokens Utils

/-! ## What a redemption is worth -/

/-- What a redemption of `amount` at `price` is worth, less the fee. -/
def redeemedFor (amount bps price inDecimals outDecimals : ℕ) : ℕ :=
  netOf amount bps * price * 10 ^ outDecimals / 10 ^ (inDecimals + priceDecimals)

theorem redeemedFor_pos_iff {amount bps price inDecimals outDecimals : ℕ} :
    0 < redeemedFor amount bps price inDecimals outDecimals ↔
      10 ^ (inDecimals + priceDecimals) ≤ netOf amount bps * price * 10 ^ outDecimals := by
  have hden : 0 < 10 ^ (inDecimals + priceDecimals) := Nat.pow_pos (by decide)
  exact Nat.div_pos_iff.trans (and_iff_right hden)

/-- With a fee of at most 100% a redemption is priced exactly. -/
theorem processRedemptionCore_exact {env : Env} {offer : Offer} {amount : UInt64}
    {tokenIn tokenOut : MintAccount} {bps : UInt16} {result : RedemptionProcessResult}
    (hfee : bps.toNat ≤ maxBasisPoints)
    (h : processRedemptionCore env offer amount tokenIn tokenOut bps = .ok result) :
    result.tokenInNetAmount.toNat = netOf amount.toNat bps.toNat ∧
    result.tokenInFeeAmount.toNat = feeOf amount.toNat bps.toNat ∧
    result.tokenOutAmount.toNat = redeemedFor amount.toNat bps.toNat (exactPrice offer env.now)
      tokenIn.decimals.toNat tokenOut.decimals.toNat := by
  simp only [processRedemptionCore, bind_eq_ok, pure_eq_ok] at h
  obtain ⟨price, hprice, fees, hfees, out, hout, rfl⟩ := h
  obtain ⟨hfeeAmount, hnet⟩ := (calculateFees_eq_ok hfee).mp hfees
  refine ⟨hnet, hfeeAmount, ?_⟩
  rw [redeemedFor, ← currentPrice_ok hprice, ← hnet]
  exact redemptionTokenOut_ok hout

/-! ## Step 1 of a fulfillment -/

namespace ExecuteRedemptionOpsParams

/-- What of `token_in` is burned. -/
def burned (p : ExecuteRedemptionOpsParams) : ℕ :=
  if programControlsMint p.tokenInMint p.mintAuthorityPda then p.tokenInNetAmount.toNat else 0

/-- What of `token_in` the boss gets. -/
def handedOver (p : ExecuteRedemptionOpsParams) : ℕ :=
  if programControlsMint p.tokenInMint p.mintAuthorityPda then p.tokenInFeeAmount.toNat
  else p.tokenInNetAmount.toNat + p.tokenInFeeAmount.toNat

end ExecuteRedemptionOpsParams

section Settle

variable {epoch : UInt64} {p : ExecuteRedemptionOpsParams} {l l' : Ledger}

theorem settleTokenIn_flow (hfree : l.FreeOfFee epoch p.vaultTokenInAccount.mint)
    (h : settleTokenIn epoch p l = .ok l') :
    Flow (Pi.single p.vaultTokenInAccount (p.tokenInNetAmount.toNat + p.tokenInFeeAmount.toNat))
      (Pi.single p.bossTokenInAccount p.handedOver) l.amount l'.amount := by
  unfold settleTokenIn at h
  unfold ExecuteRedemptionOpsParams.handedOver
  split at h
  · next hcontrols =>
    rw [if_pos hcontrols]
    simp only [bind_eq_ok] at h
    obtain ⟨l₁, h₁, h₂⟩ := h
    have hcalls : Calls (fun _ => True) l l₁ := burnTokens_calls h₁ trivial
    apply ((burnTokens_flow h₁).trans (payFee_flow h₂ (hfree.calls hcalls))).congr
    · rw [Pi.single_add]
    · rw [zero_add]
  · next hcontrols =>
    rw [if_neg hcontrols]
    exact transferSum_flow h hfree

theorem settleTokenIn_supply (h : settleTokenIn epoch p l = .ok l') :
    Flow (Pi.single p.vaultTokenInAccount.mint p.burned) 0 l.supply l'.supply := by
  unfold settleTokenIn at h
  unfold ExecuteRedemptionOpsParams.burned
  split at h
  · next hcontrols =>
    rw [if_pos hcontrols]
    simp only [bind_eq_ok] at h
    obtain ⟨l₁, h₁, h₂⟩ := h
    rw [payFee_supply h₂]
    exact burnTokens_supply h₁
  · next hcontrols =>
    rw [if_neg hcontrols, Pi.single_zero]
    simp only [bind_eq_ok] at h
    obtain ⟨_, _, h₁⟩ := h
    rw [transferTokens_supply h₁]
    exact .refl _

theorem settleTokenIn_hasAccount {a : Ata} (h : settleTokenIn epoch p l = .ok l') :
    l'.HasAccount a ↔ l.HasAccount a := by
  unfold settleTokenIn at h
  split at h
  · simp only [bind_eq_ok] at h
    obtain ⟨l₁, h₁, h₂⟩ := h
    exact (payFee_hasAccount h₂).trans (burnTokens_hasAccount h₁)
  · simp only [bind_eq_ok] at h
    obtain ⟨_, _, h₁⟩ := h
    exact transferTokens_hasAccount h₁

/-- Both steps: the request leaves the vault, and the redeemer is paid. -/
theorem executeRedemptionOperations_flow (hexact : l.Exact)
    (h : executeRedemptionOperations epoch p l = .ok l') :
    Flow (Pi.single p.vaultTokenInAccount (p.tokenInNetAmount.toNat + p.tokenInFeeAmount.toNat) +
        Pi.single p.vaultTokenOutAccount
          (drawnFromSource p.tokenOutMint p.mintAuthorityPda p.tokenOutAmount))
      (Pi.single p.bossTokenInAccount p.handedOver +
        Pi.single p.userTokenOutAccount p.tokenOutAmount.toNat) l.amount l'.amount ∧
    Flow (Pi.single p.vaultTokenInAccount.mint p.burned + 0)
      (0 + Pi.single p.tokenOutMint.key
        (mintedOut p.tokenOutMint p.mintAuthorityPda p.tokenOutAmount)) l.supply l'.supply := by
  obtain ⟨l₁, hsettle, hdist⟩ := executeRedemptionOperations_eq_ok.mp h
  have hexact₁ : l₁.Exact := hexact.calls (settleTokenIn_calls hsettle)
  have hpaid := settleTokenIn_flow (fun n => hexact _ _ n) hsettle
  have hgiven := distributeTokenOut_flow hdist fun n => hexact₁ _ _ n
  exact ⟨hpaid.trans hgiven, (settleTokenIn_supply hsettle).trans (distributeTokenOut_supply hdist)⟩

theorem executeRedemptionOperations_hasAccount {a : Ata}
    (h : executeRedemptionOperations epoch p l = .ok l') : l'.HasAccount a ↔ l.HasAccount a := by
  obtain ⟨l₁, hsettle, hdist⟩ := executeRedemptionOperations_eq_ok.mp h
  exact (distributeTokenOut_hasAccount hdist).trans (settleTokenIn_hasAccount hsettle)

end Settle

/-! ## Cancellation -/

/-- `amount` went from the vault's account to the redeemer's, which may be new; nothing else did. -/
structure CancelPays (source destination : Ata) (amount : ℕ) (l l' : Ledger) : Prop where
  vault : l'.amount source + amount = l.amount source
  redeemer : l'.amount destination = l.amount destination + amount
  otherBalances : ∀ a, a ≠ source → a ≠ destination → l'.amount a = l.amount a
  supplies : l'.supply = l.supply
  accounts : ∀ a, l'.HasAccount a ↔ a = destination ∨ l.HasAccount a
  terms : ∀ k, (l'.mints.lookup k).map Mint.terms = (l.mints.lookup k).map Mint.terms

variable {env : Env} {w w' : World} {s : State} {o : RedemptionOffer} {r : RedemptionRequest}
  {l₁ l₂ l₃ : Ledger}

theorem RequestCancelled.pays {ctx : CancelRedemptionRequest}
    (h : RequestCancelled env ctx w w' s o r l₁ l₂) (hexact : w.ledger.Exact) :
    CancelPays (redemptionVault ctx.tokenInMint ctx.tokenProgram)
      ⟨ctx.redeemer, ctx.tokenInMint, ctx.tokenProgram⟩ r.amount.toNat w.ledger w'.ledger := by
  have hledger : w'.ledger = l₂ := congrArg World.ledger h.result
  have hne : redemptionVault ctx.tokenInMint ctx.tokenProgram ≠
      ⟨ctx.redeemer, ctx.tokenInMint, ctx.tokenProgram⟩ :=
    fun he => h.redeemer_ne_vault (congrArg Ata.wallet he).symm
  have hinit : Calls (fun _ => False) w.ledger l₁ := Calls.of_initIfNeeded h.redeemerAccount
  have hstart : l₁.amount = w.ledger.amount := funext fun a => hinit.amount_eq fun _ hc => hc.elim
  have hflow := transferTokens_flow h.returned fun n => hexact.calls hinit _ _ n
  rw [hstart] at hflow
  rw [hledger]
  constructor
  · exact hflow.apply_lost hne
  · exact hflow.apply_gained hne.symm
  · exact fun a => hflow.apply_of_ne
  · rw [transferTokens_supply h.returned]
    exact Ledger.supply_initIfNeeded h.redeemerAccount
  · intro a
    exact (transferTokens_hasAccount h.returned).trans
      (Ledger.hasAccount_initIfNeeded h.redeemerAccount a)
  · exact (h.calls.mono fun _ hc => hc.within).terms_eq_of_within

/-! ## Fulfillment -/

namespace FulfillRedemptionRequest

variable (ctx : FulfillRedemptionRequest) (amount net fee out : ℕ) (l : Ledger)

/-- What of the request is burned: all but the fee, where the program can mint `token_in`. -/
def burned : ℕ := if l.mintAuthority ctx.tokenInMint = some Seeds.mintAuthority then net else 0

/-- What of the request the boss receives: the fee there, all of it elsewhere. -/
def bossReceives : ℕ :=
  if l.mintAuthority ctx.tokenInMint = some Seeds.mintAuthority then fee else amount

/-- What of `token_out` is minted: all of it, where the program can. -/
def minted : ℕ := if l.mintAuthority ctx.tokenOutMint = some Seeds.mintAuthority then out else 0

/-- What of `token_out` the vault pays: all of it elsewhere. -/
def vaultPays : ℕ := if l.mintAuthority ctx.tokenOutMint = some Seeds.mintAuthority then 0 else out

end FulfillRedemptionRequest

/-- `amount` left the vault, and the redeemer got `out`; nothing else moved. -/
structure FulfillPays (ctx : FulfillRedemptionRequest) (amount net fee out : ℕ) (l l' : Ledger) :
    Prop where
  parts : net + fee = amount
  vaultIn : l'.amount ctx.vaultTokenIn + amount = l.amount ctx.vaultTokenIn
  bossIn : l'.amount ctx.bossTokenIn = l.amount ctx.bossTokenIn + ctx.bossReceives amount fee l
  supplyIn : l'.supply ctx.tokenInMint + ctx.burned net l = l.supply ctx.tokenInMint
  redeemerOut : l'.amount ctx.userTokenOut = l.amount ctx.userTokenOut + out
  vaultOut : l'.amount ctx.vaultTokenOut + ctx.vaultPays out l = l.amount ctx.vaultTokenOut
  supplyOut : l'.supply ctx.tokenOutMint = l.supply ctx.tokenOutMint + ctx.minted out l
  otherBalances : ∀ a, a ≠ ctx.vaultTokenIn → a ≠ ctx.bossTokenIn → a ≠ ctx.userTokenOut →
    a ≠ ctx.vaultTokenOut → l'.amount a = l.amount a
  otherSupplies : ∀ k, k ≠ ctx.tokenInMint → k ≠ ctx.tokenOutMint → l'.supply k = l.supply k
  accounts : ∀ a, l'.HasAccount a ↔ a = ctx.bossTokenIn ∨ a = ctx.userTokenOut ∨ l.HasAccount a
  terms : ∀ k, (l'.mints.lookup k).map Mint.terms = (l.mints.lookup k).map Mint.terms

namespace RequestFulfilled

variable {ctx : FulfillRedemptionRequest} {offer : Offer} {tokenIn tokenOut : MintAccount}
  {result : RedemptionProcessResult}
  (h : RequestFulfilled env ctx w w' s offer o r tokenIn tokenOut result l₁ l₂ l₃)
include h

theorem parts : result.tokenInNetAmount.toNat + result.tokenInFeeAmount.toNat = r.amount.toNat :=
  processRedemptionCore_parts h.priced

/-- What the balances and the supplies lose and gain. -/
theorem flow (hexact : w.ledger.Exact) :
    Flow (Pi.single ctx.vaultTokenIn r.amount.toNat +
        Pi.single ctx.vaultTokenOut (ctx.vaultPays result.tokenOutAmount.toNat w.ledger))
      (Pi.single ctx.bossTokenIn
          (ctx.bossReceives r.amount.toNat result.tokenInFeeAmount.toNat w.ledger) +
        Pi.single ctx.userTokenOut result.tokenOutAmount.toNat) w.ledger.amount l₃.amount ∧
    Flow (Pi.single ctx.tokenInMint (ctx.burned result.tokenInNetAmount.toNat w.ledger))
      (Pi.single ctx.tokenOutMint (ctx.minted result.tokenOutAmount.toNat w.ledger))
      w.ledger.supply l₃.supply := by
  have hinit : Calls (fun _ => False) w.ledger l₂ :=
    (Calls.of_initIfNeeded h.userAccount).trans (Calls.of_initIfNeeded h.bossAccount)
  have hamount : l₂.amount = w.ledger.amount :=
    funext fun a => hinit.amount_eq fun _ hc => hc.elim
  have hsupply : l₂.supply = w.ledger.supply := by
    rw [Ledger.supply_initIfNeeded h.bossAccount, Ledger.supply_initIfNeeded h.userAccount]
  have hin : programControlsMint tokenIn Seeds.mintAuthority = true ↔
      w.ledger.mintAuthority ctx.tokenInMint = some Seeds.mintAuthority :=
    programControlsMint_iff h.tokenIn
  have hout : programControlsMint tokenOut Seeds.mintAuthority = true ↔
      w.ledger.mintAuthority ctx.tokenOutMint = some Seeds.mintAuthority :=
    programControlsMint_iff h.tokenOut
  have hhanded : (ctx.execParams tokenIn tokenOut result).handedOver =
      ctx.bossReceives r.amount.toNat result.tokenInFeeAmount.toNat w.ledger :=
    if_congr hin rfl h.parts
  have hburned : (ctx.execParams tokenIn tokenOut result).burned =
      ctx.burned result.tokenInNetAmount.toNat w.ledger := if_congr hin rfl rfl
  have hpaid : drawnFromSource tokenOut Seeds.mintAuthority result.tokenOutAmount =
      ctx.vaultPays result.tokenOutAmount.toNat w.ledger := if_congr hout rfl rfl
  have hminted : mintedOut tokenOut Seeds.mintAuthority result.tokenOutAmount =
      ctx.minted result.tokenOutAmount.toNat w.ledger := if_congr hout rfl rfl
  obtain ⟨hbalances, hsupplies⟩ :=
    executeRedemptionOperations_flow (hexact.calls hinit) h.executed
  rw [hamount, hhanded] at hbalances
  rw [hsupply, hburned, add_zero, zero_add] at hsupplies
  rw [← hpaid, ← hminted, ← h.parts, ← h.tokenOut_key]
  rw [← h.parts] at hbalances
  exact ⟨hbalances, hsupplies⟩

theorem pays (hexact : w.ledger.Exact) (hmints : ctx.tokenInMint ≠ ctx.tokenOutMint)
    (hfee : o.feeBasisPoints.toNat ≤ maxBasisPoints) :
    FulfillPays ctx r.amount.toNat (netOf r.amount.toNat o.feeBasisPoints.toNat)
      (feeOf r.amount.toNat o.feeBasisPoints.toNat)
      (redeemedFor r.amount.toNat o.feeBasisPoints.toNat (exactPrice offer env.now)
        tokenIn.decimals.toNat tokenOut.decimals.toNat) w.ledger w'.ledger := by
  obtain ⟨hnet, hfeeAmount, hout⟩ := processRedemptionCore_exact hfee h.priced
  obtain ⟨hbalances, hsupplies⟩ := h.flow hexact
  rw [hnet, hout] at hsupplies
  rw [hfeeAmount, hout] at hbalances
  have hledger : w'.ledger = l₃ := congrArg World.ledger h.outcome
  rw [← hledger] at hbalances hsupplies
  have hbalance := hbalances.apply
  have hsupply := hsupplies.apply
  simp only [Pi.add_apply, Pi.single_apply] at hbalance hsupply
  -- The four accounts are different: two of each mint, and of two wallets.
  have hvv : ctx.vaultTokenIn ≠ ctx.vaultTokenOut := fun he => hmints (congrArg Ata.mint he)
  have hvb : ctx.vaultTokenIn ≠ ctx.bossTokenIn :=
    fun he => h.boss_ne_vault (congrArg Ata.wallet he).symm
  have hvu : ctx.vaultTokenIn ≠ ctx.userTokenOut := fun he => hmints (congrArg Ata.mint he)
  have hbv : ctx.bossTokenIn ≠ ctx.vaultTokenOut := fun he => hmints (congrArg Ata.mint he)
  have hbu : ctx.bossTokenIn ≠ ctx.userTokenOut := fun he => hmints (congrArg Ata.mint he)
  have hou : ctx.vaultTokenOut ≠ ctx.userTokenOut :=
    fun he => h.redeemer_ne_vault (congrArg Ata.wallet he).symm
  constructor
  · exact netOf_add_feeOf hfee
  · simpa [hvv, hvb, hvu] using hbalance ctx.vaultTokenIn
  · simpa [hvb.symm, hbv, hbu] using hbalance ctx.bossTokenIn
  · simpa [hmints] using hsupply ctx.tokenInMint
  · simpa [hvu.symm, hou.symm, hbu.symm] using hbalance ctx.userTokenOut
  · simpa [hvv.symm, hbv.symm, hou] using hbalance ctx.vaultTokenOut
  · simpa [hmints.symm] using hsupply ctx.tokenOutMint
  · intro a h₁ h₂ h₃ h₄
    simpa [h₁, h₂, h₃, h₄] using hbalance a
  · intro k hin hout
    simpa [hin, hout] using hsupply k
  · intro a
    rw [hledger, executeRedemptionOperations_hasAccount h.executed,
      Ledger.hasAccount_initIfNeeded h.bossAccount, Ledger.hasAccount_initIfNeeded h.userAccount]
  · rw [hledger]
    exact h.calls.terms_eq_of_within

end RequestFulfilled

end OnreApp.Redemption
