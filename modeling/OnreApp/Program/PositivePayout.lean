import OnreApp.Offers.Exchange
import OnreApp.Program.FeeCeiling
import OnreApp.Redemption.Settlement

/-!
# Payments that buy nothing

No exchange checks that what it pays is positive. It is positive exactly if the payment, less its
fee, is worth one unit of `token_out`, and a redemption's mint does not withhold all of it.
-/
namespace OnreApp.Program

open Library.FiniteStore Library.Outcome Library.Run Offers Redemption Tokens Utils

/-! ## What is delivered -/

/-- What the last call into a token program gave the account: minted to it, or transferred to it
less what the mint withholds. -/
def delivered (epoch : UInt64) (account : Ata) (l : Ledger) : ℕ :=
  match l.cpis.head? with
  | some (.mintToChecked _ destination amount) => if destination = account then amount.toNat else 0
  | some (.transferChecked source destination amount) =>
    if destination = account ∧ source ≠ account then
      amount.toNat - l.transferFee epoch account.mint amount.toNat
    else 0
  | _ => 0

section Delivery

variable {l l' : Ledger} {epoch : UInt64} {source destination : Ata}
  {authority mintAuthorityPda : Pubkey} {mint : MintAccount} {amount maxSupply : UInt64}

theorem transferTokens_delivers (hne : source ≠ destination)
    (h : transferTokens epoch source destination authority amount l = .ok l') :
    delivered epoch destination l' =
      amount.toNat - l.transferFee epoch destination.mint amount.toNat := by
  obtain ⟨_, rfl⟩ := transferTokens_eq_ok.mp h
  exact if_pos ⟨rfl, hne⟩

theorem mintTokens_delivers
    (h : mintTokens mint destination authority amount maxSupply l = .ok l') :
    delivered epoch destination l' = amount.toNat := by
  obtain ⟨_, _, rfl⟩ := mintTokens_eq_ok.mp h
  exact if_pos rfl

/-- What step 2 delivers is what the balance of the destination grows by. -/
theorem distributeTokenOut_delivers (hne : source ≠ destination)
    (h : distributeTokenOut epoch mint source destination authority mintAuthorityPda amount
      maxSupply l = .ok l') :
    l'.amount destination = l.amount destination + delivered epoch destination l' ∧
    delivered epoch destination l' = if programControlsMint mint mintAuthorityPda then amount.toNat
      else amount.toNat - l.transferFee epoch destination.mint amount.toNat := by
  unfold distributeTokenOut at h
  split at h
  · next hcontrols =>
    have hgot : delivered epoch destination l' = amount.toNat := mintTokens_delivers h
    obtain ⟨_, hc, rfl⟩ := mintTokens_eq_ok.mp h
    rw [hgot, if_pos hcontrols, Ledger.amount_mintTo hc, if_pos rfl]
    exact ⟨rfl, rfl⟩
  · next hcontrols =>
    have hgot := transferTokens_delivers hne h
    obtain ⟨hc, rfl⟩ := transferTokens_eq_ok.mp h
    rw [hgot, if_neg hcontrols, Ledger.amount_transfer hc, if_neg hne, if_pos rfl, hc.2.2.1]
    exact ⟨rfl, rfl⟩

end Delivery

/-! ## When the payment is worth something -/

/-- The payment of a take, less the fee, is worth at least one unit of `token_out`. -/
def TakeBuys (env : Env) (ctx : TakeOffer) (amount : UInt64) (w : World) : Prop :=
  ∃ offer tokenIn tokenOut, w.offers.lookup ctx.offerPda = some offer ∧
    w.ledger.mints.lookup ctx.tokenInMint = some tokenIn ∧
    w.ledger.mints.lookup ctx.tokenOutMint = some tokenOut ∧
    exactPrice offer env.now * 10 ^ tokenIn.decimals.toNat ≤
      netOf amount.toNat offer.feeBasisPoints.toNat * 10 ^ (tokenOut.decimals.toNat + priceDecimals)

/-- The amount of a request, less the fee, is worth at least one unit of `token_out`, and a
transfer of it, where the program cannot mint, is not withheld whole. -/
def FulfillmentBuys (env : Env) (ctx : FulfillRedemptionRequest) (w : World) : Prop :=
  ∃ offer o r tokenIn tokenOut, w.offers.lookup ctx.offer = some offer ∧
    w.redemptionOffers.lookup ctx.redemptionOffer = some o ∧
    w.redemptionRequests.lookup ctx.redemptionRequest = some r ∧
    w.ledger.mints.lookup ctx.tokenInMint = some tokenIn ∧
    w.ledger.mints.lookup ctx.tokenOutMint = some tokenOut ∧
    10 ^ (tokenIn.decimals.toNat + priceDecimals) ≤
      netOf r.amount.toNat o.feeBasisPoints.toNat * exactPrice offer env.now *
        10 ^ tokenOut.decimals.toNat ∧
    (tokenOut.mintAuthority = some Seeds.mintAuthority ∨
      let out := redeemedFor r.amount.toNat o.feeBasisPoints.toNat (exactPrice offer env.now)
        tokenIn.decimals.toNat tokenOut.decimals.toNat
      tokenOut.transferFee env.epoch out < out)

theorem processOfferCore_pos_iff {env : Env} {offer : Offer} {amount : UInt64}
    {tokenIn tokenOut : MintAccount} {result : OfferProcessResult}
    (hfee : offer.feeBasisPoints.toNat ≤ maxBasisPoints)
    (h : processOfferCore env offer amount tokenIn tokenOut = .ok result) :
    0 < result.tokenOutAmount ↔ exactPrice offer env.now * 10 ^ tokenIn.decimals.toNat ≤
      netOf amount.toNat offer.feeBasisPoints.toNat *
        10 ^ (tokenOut.decimals.toNat + priceDecimals) := by
  simp only [processOfferCore, bind_eq_ok, pure_eq_ok] at h
  obtain ⟨_, _, _, _, price, hprice, fees, hfees, out, hout, rfl⟩ := h
  obtain ⟨hpos, _, _, _, hout⟩ := calculateTokenOutAmount_eq_ok.mp hout
  have hden : 0 < price.toNat * 10 ^ tokenIn.decimals.toNat :=
    Nat.mul_pos hpos (Nat.pow_pos (by decide))
  show 0 < out ↔ _
  rw [UInt64.lt_iff_toNat_lt, hout, ← currentPrice_ok hprice,
    ((calculateFees_eq_ok hfee).mp hfees).2]
  exact Nat.div_pos_iff.trans (and_iff_right hden)

/-! ## What an exchange delivers -/

theorem takeOffer_delivers {env : Env} {ctx : TakeOffer} {amount : UInt64}
    {approval : Option ApprovalMessage} {w w' : World}
    (h : takeOffer env ctx amount approval w = .ok w') :
    ∃ result, takeQuote env ctx amount w = .ok result ∧
      delivered env.epoch (ctx.tokenOutAccount ctx.user.key) w'.ledger =
        result.tokenOutAmount.toNat := by
  obtain ⟨offer, s, tokenIn, tokenOut, l, result, l', hc, hexec, rfl⟩ := takeOffer_eq_ok.mp h
  obtain ⟨_, hout, l₁, hpay, hdist⟩ := executeTokenOperations_eq_ok.mp hexec
  have hvault : Seeds.offerVaultAuthority ≠ ctx.user.key :=
    (ctx.user.ne_authority (a := Seeds.offerVaultAuthority) (by decide)).symm
  have hgot := (distributeTokenOut_delivers (TakeOffer.tokenOutAccount_ne hvault) hdist).2
  have hfree : l₁.transferFee env.epoch ctx.tokenOutMint result.tokenOutAmount.toNat = 0 :=
    hc.freeOfFee_out hout (payTokenIn_calls hpay) _
  refine ⟨result, hc.quote, hgot.trans ?_⟩
  show (if _ then result.tokenOutAmount.toNat else result.tokenOutAmount.toNat -
    l₁.transferFee env.epoch ctx.tokenOutMint result.tokenOutAmount.toNat) = _
  rw [hfree, Nat.sub_zero, ite_self]

theorem takeOfferPermissionless_delivers {env : Env} {ctx : TakeOfferPermissionless}
    {amount : UInt64} {approval : Option ApprovalMessage} {w w' : World}
    (h : takeOfferPermissionless env ctx amount approval w = .ok w') :
    ∃ result, takeQuote env ctx.toTakeOffer amount w = .ok result ∧
      delivered env.epoch (ctx.tokenOutAccount ctx.user.key) w'.ledger =
        result.tokenOutAmount.toNat := by
  obtain ⟨offer, s, tokenIn, tokenOut, l, result, l₁, l₂, l₃, hc, _, _, _, _, _, _, h₁, hexec, h₃,
    rfl⟩ := takeOfferPermissionless_eq_ok.mp h
  obtain ⟨_, hout, _, _, _⟩ := executeTokenOperations_eq_ok.mp hexec
  have hhub : Seeds.permissionlessAuthority ≠ ctx.user.key :=
    (ctx.user.ne_authority (a := Seeds.permissionlessAuthority) (by decide)).symm
  have hgot := transferTokens_delivers (TakeOffer.tokenOutAccount_ne hhub) h₃
  have hself : Calls (TokenCpi.MovesWithin [] []) l l := .refl l
  have hcalls : Calls (fun _ => True) l l₂ := (transferTokens_calls h₁ trivial).trans
    ((executeTokenOperations_calls hexec).mono fun _ _ => trivial)
  have hfree : l₂.transferFee env.epoch ctx.tokenOutMint result.tokenOutAmount.toNat = 0 :=
    (hc.freeOfFee_out hout hself).calls hcalls _
  refine ⟨result, hc.quote, hgot.trans ?_⟩
  show result.tokenOutAmount.toNat -
    l₂.transferFee env.epoch ctx.tokenOutMint result.tokenOutAmount.toNat = _
  rw [hfree, Nat.sub_zero]

/-- A quote is positive exactly if the payment is worth a unit. -/
theorem takeQuote_pos_iff {env : Env} {ctx : TakeOffer} {amount : UInt64} {w : World}
    {result : OfferProcessResult}
    (hfee : ∀ o, w.offers.lookup ctx.offerPda = some o → o.feeBasisPoints.toNat ≤ maxBasisPoints)
    (h : takeQuote env ctx amount w = .ok result) :
    0 < result.tokenOutAmount.toNat ↔ TakeBuys env ctx amount w := by
  obtain ⟨offer, tokenIn, tokenOut, ho, ⟨hi, _⟩, ⟨hj, _⟩, hpriced⟩ := takeQuote_eq_ok.mp h
  have hpos := processOfferCore_pos_iff (hfee offer ho) hpriced
  rw [UInt64.lt_iff_toNat_lt] at hpos
  constructor
  · intro hout
    exact ⟨offer, _, _, ho, hi, hj, hpos.mp hout⟩
  · intro hbuys
    obtain ⟨_, _, _, ho', hi', hj', hle⟩ := hbuys
    rw [ho] at ho'
    rw [hi] at hi'
    rw [hj] at hj'
    cases ho'
    cases hi'
    cases hj'
    exact hpos.mpr hle

theorem fulfillRedemptionRequest_delivers_pos_iff {env : Env} {ctx : FulfillRedemptionRequest}
    {w w' : World}
    (hfee : ∀ o, w.redemptionOffers.lookup ctx.redemptionOffer = some o →
      o.feeBasisPoints.toNat ≤ maxBasisPoints)
    (h : fulfillRedemptionRequest env ctx w = .ok w') :
    0 < delivered env.epoch ctx.userTokenOut w'.ledger ↔ FulfillmentBuys env ctx w := by
  obtain ⟨s, offer, o, r, tokenIn, tokenOut, result, l₁, l₂, l₃, hf⟩ :=
    fulfillRedemptionRequest_ok h
  obtain ⟨l, hsettle, hdist⟩ := executeRedemptionOperations_eq_ok.mp hf.executed
  have hvault : ctx.vaultTokenOut ≠ ctx.userTokenOut :=
    fun he => hf.redeemer_ne_vault (congrArg Ata.wallet he).symm
  have hgot := (distributeTokenOut_delivers hvault hdist).2
  have hcalls : Calls (fun _ => True) w.ledger l :=
    ((Calls.of_initIfNeeded hf.userAccount).trans (Calls.of_initIfNeeded hf.bossAccount)).trans
      ((settleTokenIn_calls hsettle).mono fun _ _ => trivial)
  have hwithheld : l.transferFee env.epoch ctx.tokenOutMint result.tokenOutAmount.toNat =
      tokenOut.transferFee env.epoch result.tokenOutAmount.toNat := by
    rw [hcalls.transferFee_eq, Ledger.transferFee, hf.tokenOut]
    rfl
  obtain ⟨_, _, hout⟩ := processRedemptionCore_exact (hfee o hf.offer_stored) hf.priced
  have hgot : delivered env.epoch ctx.userTokenOut w'.ledger =
      if tokenOut.mintAuthority = some Seeds.mintAuthority then result.tokenOutAmount.toNat
      else result.tokenOutAmount.toNat -
        tokenOut.transferFee env.epoch result.tokenOutAmount.toNat := by
    rw [hf.outcome, ← hwithheld]
    exact hgot.trans (if_congr decide_eq_true_iff rfl rfl)
  rw [hgot, hout]
  constructor
  · intro hpos
    refine ⟨offer, o, r, _, _, hf.underlying_stored, hf.offer_stored, hf.request_stored, hf.tokenIn,
      hf.tokenOut, ?_, ?_⟩
    · apply redeemedFor_pos_iff.mp
      split at hpos
      · exact hpos
      · exact Nat.lt_of_lt_of_le hpos (Nat.sub_le _ _)
    · split at hpos
      · next hminted => exact .inl hminted
      · exact .inr (Nat.lt_of_sub_pos hpos)
  · intro hbuys
    obtain ⟨_, _, _, _, _, hoff, ho, hr, hi, hj, hle, hleft⟩ := hbuys
    rw [hf.underlying_stored] at hoff
    rw [hf.offer_stored] at ho
    rw [hf.request_stored] at hr
    rw [hf.tokenIn] at hi
    rw [hf.tokenOut] at hj
    cases hoff
    cases ho
    cases hr
    cases hi
    cases hj
    split
    · exact redeemedFor_pos_iff.mpr hle
    · next hminted =>
      rcases hleft with hcontrols | hlt
      · exact absurd hcontrols hminted
      · exact Nat.sub_pos_of_lt hlt

/-- In every reachable state an exchange that goes through delivers something exactly if the
payment is worth it. -/
theorem payment_buys_iff (l : Ledger) (actions : List Action) :
    let w := run step (World.genesis l) actions
    (∀ env ctx amount approval w', takeOffer env ctx amount approval w = .ok w' →
      (0 < delivered env.epoch (ctx.tokenOutAccount ctx.user.key) w'.ledger ↔
        TakeBuys env ctx amount w)) ∧
    (∀ env ctx amount approval w', takeOfferPermissionless env ctx amount approval w = .ok w' →
      (0 < delivered env.epoch (ctx.tokenOutAccount ctx.user.key) w'.ledger ↔
        TakeBuys env ctx.toTakeOffer amount w)) ∧
    ∀ env ctx w', fulfillRedemptionRequest env ctx w = .ok w' →
      (0 < delivered env.epoch ctx.userTokenOut w'.ledger ↔ FulfillmentBuys env ctx w) := by
  intro w
  refine ⟨?_, ?_, ?_⟩
  · intro env ctx amount approval w' h
    obtain ⟨result, hquote, hgot⟩ := takeOffer_delivers h
    rw [hgot]
    exact takeQuote_pos_iff (fun _ => offerFee_le l actions) hquote
  · intro env ctx amount approval w' h
    obtain ⟨result, hquote, hgot⟩ := takeOfferPermissionless_delivers h
    rw [hgot]
    exact takeQuote_pos_iff (fun _ => offerFee_le l actions) hquote
  · intro env ctx w' h
    exact fulfillRedemptionRequest_delivers_pos_iff (fun _ => redemptionFee_le l actions) h

/-- Alice takes ONyc with 1000 units of USDC, and her payment buys. -/
theorem payment_buys_iff_sample :
    let w := run step (World.genesis (Sample.ledger Sample.issuer)) (Sample.market false)
    TakeBuys (Sample.env 1000) Sample.aliceTakes.toTakeOffer 1000 w := by
  intro w
  obtain ⟨w', h, hgot⟩ : ∃ w',
      takeOffer (Sample.env 1000) Sample.aliceTakes.toTakeOffer 1000 none w =
      .ok w' ∧ delivered 0 (Sample.account Sample.alice.key Sample.onyc) w'.ledger = 1000000 :=
    exists_ok_of_map (by decide +kernel)
  have hpos : 0 < delivered 0 (Sample.account Sample.alice.key Sample.onyc) w'.ledger := by
    rw [hgot]
    decide
  exact ((payment_buys_iff (Sample.ledger Sample.issuer) (Sample.market false)).1
    _ _ _ _ _ h).mp hpos

/-- One unit of ONyc is worth a thousandth of a unit of USDC: Alice pays it, or has it burned, and
gets nothing. -/
theorem unit_buys_nothing :
    let w := run step (World.genesis (Sample.ledger Seeds.mintAuthority)) (Sample.setup ++
      [Sample.act (.offerVaultDeposit ⟨Sample.usdc, .token, Sample.boss⟩ 500000),
        Sample.act (.createRedemptionRequest ⟨⟨Sample.onyc, Sample.usdc⟩, Sample.alice, Sample.onyc,
          .token⟩ 1)])
    let onyc := Sample.account Sample.alice.key Sample.onyc
    let usdc := Sample.account Sample.alice.key Sample.usdc
    (∃ w', takeOffer (Sample.env 1000)
        ⟨Sample.boss.key, Sample.onyc, .token, Sample.usdc, .token, Sample.alice⟩ 1 none
          w = .ok w' ∧
      (delivered 0 usdc w'.ledger, w'.ledger.amount onyc + 1, w'.ledger.amount usdc) =
        (0, w.ledger.amount onyc, w.ledger.amount usdc)) ∧
    (w.redemptionRequests.lookup ⟨⟨Sample.onyc, Sample.usdc⟩, 0⟩).map RedemptionRequest.amount =
      some 1 ∧
    ∃ w', step Sample.fulfillAlice w = .ok w' ∧
      (delivered 0 usdc w'.ledger, w'.ledger.supply Sample.onyc + 1, w'.ledger.amount usdc) =
        (0, w.ledger.supply Sample.onyc, w.ledger.amount usdc) := by
  intro w onyc usdc
  refine ⟨exists_ok_of_map ?_, by decide +kernel, exists_ok_of_map ?_⟩
  · decide +kernel
  · decide +kernel

end OnreApp.Program
