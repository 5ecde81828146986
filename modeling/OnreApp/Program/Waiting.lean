import OnreApp.Program.Lifecycle
import OnreApp.Program.Unprivileged
import OnreApp.Program.ViewAvailability
import OnreApp.Redemption.ConversionLaws
import OnreApp.Redemption.Fulfillment

/-!
# Trading now or later

Between two moments the price of an offer only moves, and a trade gains at most what it moved.
While nobody sets prices and no further vector starts it does not fall: a redeemer loses nothing
by waiting, a buyer gains nothing.
-/
namespace OnreApp.Redemption

open Library.Checked Library.Outcome Library.Rounding Offers Program Tokens Utils

/-! ## One amount at two prices -/

section Prices

variable {price price' amount net out : UInt64} {inDec outDec : UInt8}

/-- What can be redeemed at a price can be redeemed at a lower one, for no more. -/
theorem redemptionTokenOut_mono (hle : price ≤ price')
    (h : redemptionTokenOut net price' inDec outDec = .ok out) :
    ∃ out₀, redemptionTokenOut net price inDec outDec = .ok out₀ ∧ out₀ ≤ out := by
  simp only [redemptionTokenOut, bind_eq_ok, okOr_eq_ok, pow10_eq_ok, checkedMul_eq_some,
    require_eq_ok, pure_eq_ok] at h ⊢
  obtain ⟨_, ⟨hpriced, rfl⟩, _, ⟨hout, rfl⟩, _, ⟨hnum, rfl⟩, _, ⟨hin, rfl⟩, _, ⟨hscale, rfl⟩, _,
    ⟨hden, rfl⟩, _, hfits, rfl⟩ := h
  have hpriced_le : net.toNat * price.toNat ≤ net.toNat * price'.toNat :=
    Nat.mul_le_mul_left _ (UInt64.le_iff_toNat_le.mp hle)
  have hnum_le := Nat.mul_le_mul_right (10 ^ outDec.toNat) hpriced_le
  have hresult_le := Nat.div_le_div_right (c := 10 ^ inDec.toNat * 10 ^ priceDecimals) hnum_le
  have hfits₀ := hresult_le.trans_lt hfits
  refine ⟨_, ⟨_, ⟨hpriced_le.trans_lt hpriced, rfl⟩, _, ⟨hout, rfl⟩, _,
    ⟨hnum_le.trans_lt hnum, rfl⟩, _, ⟨hin, rfl⟩, _, ⟨hscale, rfl⟩, _, ⟨hden, rfl⟩, ⟨⟩, hfits₀,
    rfl⟩, ?_⟩
  rwa [UInt64.le_iff_toNat_le, toNat_ofNat_of_lt hfits₀, toNat_ofNat_of_lt hfits]

/-- What can be bought at a price can be bought at a higher one, in no greater amount. -/
theorem calculateTokenOutAmount_antitone (hle : price ≤ price')
    (h : calculateTokenOutAmount net price inDec outDec = .ok out) :
    ∃ out', calculateTokenOutAmount net price' inDec outDec = .ok out' ∧ out' ≤ out := by
  obtain ⟨hprice, hin, hout, hnum, hresult⟩ := calculateTokenOutAmount_eq_ok.mp h
  have hle' := UInt64.le_iff_toNat_le.mp hle
  have hresult_le : net.toNat * 10 ^ (outDec.toNat + priceDecimals) /
      (price'.toNat * 10 ^ inDec.toNat) ≤ out.toNat := by
    rw [hresult]
    exact Nat.div_le_div_left (Nat.mul_le_mul_right _ hle')
      (Nat.mul_pos hprice (Nat.pow_pos (Nat.succ_pos 9)))
  have hfits := hresult_le.trans_lt out.toNat_lt
  refine ⟨UInt64.ofNat _, calculateTokenOutAmount_eq_ok.mpr ⟨hprice.trans_le hle', hin, hout, hnum,
    toNat_ofNat_of_lt hfits⟩, ?_⟩
  rwa [UInt64.le_iff_toNat_le, toNat_ofNat_of_lt hfits]

theorem redemptionConversion_mono {fee : UInt16} {c' : Conversion} (hle : price ≤ price')
    (h : redemptionConversion price' inDec outDec fee amount = .ok c') :
    ∃ c, redemptionConversion price inDec outDec fee amount = .ok c ∧ c.fee = c'.fee ∧
      c.net = c'.net ∧ c.out ≤ c'.out := by
  simp only [redemptionConversion, bind_eq_ok, pure_eq_ok] at h ⊢
  obtain ⟨fees, hfees, out', hout', rfl⟩ := h
  obtain ⟨out, hout, hle⟩ := redemptionTokenOut_mono hle hout'
  exact ⟨_, ⟨fees, hfees, out, hout, rfl⟩, rfl, rfl, hle⟩

theorem offerConversion_antitone {fee : UInt16} {c : Conversion} (hle : price ≤ price')
    (h : offerConversion price inDec outDec fee amount = .ok c) :
    ∃ c', offerConversion price' inDec outDec fee amount = .ok c' ∧ c'.fee = c.fee ∧
      c'.net = c.net ∧ c'.out ≤ c.out := by
  simp only [offerConversion, bind_eq_ok, pure_eq_ok] at h ⊢
  obtain ⟨fees, hfees, out, hout, rfl⟩ := h
  obtain ⟨out', hout', hle⟩ := calculateTokenOutAmount_antitone hle hout
  exact ⟨_, ⟨fees, hfees, out', hout', rfl⟩, rfl, rfl, hle⟩

/-- A fee leaves no more than there was. -/
theorem net_le_of_le {fee : UInt16} {fees : CalculateFeeResult} {most : UInt64}
    (h : calculateFees amount fee = .ok fees) (hle : amount ≤ most) :
    fees.tokenInNetAmount.toNat ≤ most.toNat := by
  have htotal := calculateFees_total h
  have hamount := UInt64.le_iff_toNat_le.mp hle
  omega

variable {fee fee' : UInt16} {bought redeemed : Conversion}

/-- Buying, and redeeming at most what was bought, gains at most what the price gained. -/
theorem buy_redeem_le (hbuy : offerConversion price inDec outDec fee amount = .ok bought)
    (hle : net ≤ bought.out)
    (hredeem : redemptionConversion price' outDec inDec fee' net = .ok redeemed) :
    redeemed.out.toNat * price.toNat ≤ bought.net.toNat * price'.toNat := by
  simp only [offerConversion, redemptionConversion, bind_eq_ok, pure_eq_ok] at hbuy hredeem
  obtain ⟨fees, _, out, hout, rfl⟩ := hbuy
  obtain ⟨fees', hfees', out', hout', rfl⟩ := hredeem
  obtain ⟨_, _, _, _, hbought⟩ := calculateTokenOutAmount_eq_ok.mp hout
  have hredeemed := redemptionTokenOut_ok hout'
  have hnet := net_le_of_le hfees' hle
  rw [Nat.mul_assoc] at hredeemed
  rw [hbought] at hnet
  have htwice := convert_twice_le (c := price'.toNat * 10 ^ inDec.toNat)
    (d := 10 ^ (outDec.toNat + priceDecimals)) hnet
  rw [← hredeemed] at htwice
  -- The two scales cancel.
  refine Nat.le_of_mul_le_mul_right (c := 10 ^ inDec.toNat * 10 ^ (outDec.toNat + priceDecimals))
    ?_ (Nat.mul_pos (Nat.pow_pos (Nat.succ_pos 9)) (Nat.pow_pos (Nat.succ_pos 9)))
  calc _ = out'.toNat * (price.toNat * 10 ^ inDec.toNat * 10 ^ (outDec.toNat + priceDecimals)) := by
        ac_rfl
    _ ≤ _ := htwice
    _ = _ := by ac_rfl

/-- Redeeming, and buying back with at most what was paid, gains at most what the price lost. -/
theorem redeem_buy_le
    (hredeem : redemptionConversion price outDec inDec fee amount = .ok redeemed)
    (hle : net ≤ redeemed.out)
    (hbuy : offerConversion price' inDec outDec fee' net = .ok bought) :
    bought.out.toNat * price'.toNat ≤ redeemed.net.toNat * price.toNat := by
  simp only [offerConversion, redemptionConversion, bind_eq_ok, pure_eq_ok] at hbuy hredeem
  obtain ⟨fees, _, out, hout, rfl⟩ := hredeem
  obtain ⟨fees', hfees', out', hout', rfl⟩ := hbuy
  obtain ⟨_, _, _, _, hbought⟩ := calculateTokenOutAmount_eq_ok.mp hout'
  have hredeemed := redemptionTokenOut_ok hout
  have hnet := net_le_of_le hfees' hle
  rw [hredeemed, Nat.mul_assoc] at hnet
  have htwice := convert_twice_le (c := 10 ^ (outDec.toNat + priceDecimals))
    (d := price'.toNat * 10 ^ inDec.toNat) hnet
  rw [← hbought] at htwice
  refine Nat.le_of_mul_le_mul_right (c := 10 ^ inDec.toNat * 10 ^ (outDec.toNat + priceDecimals))
    ?_ (Nat.mul_pos (Nat.pow_pos (Nat.succ_pos 9)) (Nat.pow_pos (Nat.succ_pos 9)))
  calc _ = out'.toNat * (10 ^ (outDec.toNat + priceDecimals) *
        (price'.toNat * 10 ^ inDec.toNat)) := by ac_rfl
    _ ≤ _ := htwice
    _ = _ := by ac_rfl

end Prices

end OnreApp.Redemption

namespace OnreApp.Offers

open Library.Outcome Library.Search Program

/-! ## The price while no vector starts -/

/-- No vector of the offer starts after `now` and by `later`. -/
def NoneStarts (offer : Offer) (now later : UInt64) : Prop :=
  ∀ v ∈ offer.slots, v.startTime ≤ later → v.startTime ≤ now

instance (offer : Offer) (now later : UInt64) : Decidable (NoneStarts offer now later) :=
  inferInstanceAs (Decidable (∀ v ∈ offer.slots, v.startTime ≤ later → v.startTime ≤ now))

variable {offer : Offer} {env env' : Env} {price price' : UInt64}

/-- The active vector stays. -/
theorem findActiveVectorAt_later {now later : UInt64} (hle : now ≤ later)
    (h : NoneStarts offer now later) :
    findActiveVectorAt offer later = findActiveVectorAt offer now := by
  have hsame : (offer.slots.filter fun v => v.startTime ≠ 0 ∧ v.startTime ≤ later) =
      offer.slots.filter fun v => v.startTime ≠ 0 ∧ v.startTime ≤ now := by
    apply List.filter_congr
    intro v hv
    have hiff : v.startTime ≤ later ↔ v.startTime ≤ now :=
      ⟨h v hv, fun hnow => UInt64.le_trans hnow hle⟩
    rw [decide_eq_decide, hiff]
  rw [findActiveVectorAt, hsame]
  rfl

/-- The price does not fall. -/
theorem currentPrice_later (hle : env.now ≤ env'.now) (h : NoneStarts offer env.now env'.now)
    (hprice : currentPrice env offer = .ok price) (hprice' : currentPrice env' offer = .ok price') :
    price ≤ price' := by
  obtain ⟨v, hv, hp⟩ := (bind_eq_ok _ _ _).mp hprice
  obtain ⟨v', hv', hp'⟩ := (bind_eq_ok _ _ _).mp hprice'
  rw [findActiveVectorAt_later hle h, hv] at hv'
  obtain rfl : v = v' := Except.ok.inj hv'
  rw [UInt64.le_iff_toNat_le, calculateStepPriceAt_ok hp, calculateStepPriceAt_ok hp']
  exact stepPrice_mono (UInt64.le_iff_toNat_le.mp hle)

end OnreApp.Offers

namespace OnreApp.Program

open Library.FiniteStore Library.Outcome Library.Run Offers Redemption Tokens Utils

/-! ## Runs in which nobody sets prices -/

/-- The instruction edits the vectors or the fee of an offer, or the fee of a redemption offer. -/
def Instruction.setsPrices : Instruction → Bool
  | .addOfferVector _ _ | .deleteOfferVector _ _ | .deleteAllOfferVectors _
  | .updateOfferFee _ _ | .updateRedemptionOfferFee _ _ => true
  | _ => false

theorem setsPrices_of_vectorEdit {i : Instruction} {e : VectorInstruction}
    (h : i.vectorEdit = some e) : i.setsPrices = true := by
  cases i with
  | addOfferVector | deleteOfferVector | deleteAllOfferVectors => rfl
  | _ => cases h

/-- The boss of the moment sets no prices. What somebody else signs sets none. -/
def LeavesPrices (w : World) (a : Action) : Prop :=
  a.instruction.setsPrices = true → NotBoss w a

instance (w : World) (a : Action) : Decidable (LeavesPrices w a) :=
  inferInstanceAs (Decidable (_ → _))

/-- Every offer is still there as it was, and every redemption offer on its terms. -/
structure PricesKept (w w' : World) : Prop where
  offers : ∀ k o, w.offers.lookup k = some o → w'.offers.lookup k = some o
  redemptionOffers : TermsKept w w'

theorem PricesKept.refl (w : World) : PricesKept w w := ⟨fun _ _ ho => ho, .refl w⟩

theorem PricesKept.trans {w w₁ w₂ : World} (h : PricesKept w w₁) (h' : PricesKept w₁ w₂) :
    PricesKept w w₂ :=
  ⟨fun k o ho => h'.offers k o (h.offers k o ho), h.redemptionOffers.trans h'.redemptionOffers⟩

section Kept

variable {a : Action} {w w' : World}

/-- Only the boss sets prices, and only by the instructions left out. -/
theorem LeavesPrices.not_boss (h : LeavesPrices w a) {s : State} (hs : w.state = some s)
    (hboss : a.instruction.signer = some s.boss) : a.instruction.setsPrices = false := by
  by_contra hsets
  exact h (Bool.eq_true_of_not_eq_false hsets) s hs hboss

theorem Effect.offers_kept (h : Effect a.env a.instruction w w') (hleaves : LeavesPrices w a)
    (k : OfferPda) (o : Offer) (ho : w.offers.lookup k = some o) :
    w'.offers.lookup k = some o := by
  cases h with
  | view | initialized | govern | acceptBoss | kill | close | namePermissionless | deposit
  | withdraw | mintTo | setMintAuthority | take | makeRedemptionOffer
  | updateRedemptionOfferFee => exact ho
  | createRequest _ created => rwa [created.result]
  | cancelRequest _ cancelled => rwa [cancelled.result]
  | fulfillRequest _ fulfilled => rwa [fulfilled.outcome]
  | makeOffer _ _ fresh => exact lookup_insert_of_fresh fresh ho
  | editOffer stored boss _ edit =>
    have hleft := hleaves.not_boss stored boss
    cases edit with
    | vectors instr => exact absurd (setsPrices_of_vectorEdit instr) (Bool.eq_false_iff.mp hleft)
    | fee instr =>
      rw [instr] at hleft
      cases hleft

theorem Effect.terms_kept (h : Effect a.env a.instruction w w') (hleaves : LeavesPrices w a) :
    TermsKept w w' := by
  intro k o ho
  have counters := fun {k₀ o₀ o₁} (h₀ : w.redemptionOffers.lookup k₀ = some o₀)
      (ht : termsOf o₁ = termsOf o₀) =>
    exists_lookup_insert (R := fun o o' => termsOf o' = termsOf o) (fun _ => rfl) h₀ ht ho
  cases h with
  | view | initialized | govern | acceptBoss | kill | close | namePermissionless | deposit
  | withdraw | mintTo | setMintAuthority | take | makeOffer | editOffer => exact ⟨o, ho, rfl⟩
  | makeRedemptionOffer _ _ _ fresh => exact ⟨o, lookup_insert_of_fresh fresh ho, rfl⟩
  | updateRedemptionOfferFee instr stored boss =>
    have hleft := hleaves.not_boss stored boss
    rw [instr] at hleft
    cases hleft
  | createRequest _ created =>
    rw [created.result]
    exact counters created.offer_stored rfl
  | cancelRequest _ cancelled =>
    rw [cancelled.result]
    exact counters cancelled.offer_stored rfl
  | fulfillRequest _ fulfilled =>
    rw [fulfilled.outcome]
    exact counters fulfilled.offer_stored rfl

end Kept

theorem pricesKept_run {w₀ : World} {actions : List Action}
    (h : Along step LeavesPrices w₀ actions) : PricesKept w₀ (run step w₀ actions) :=
  run_invariant (P := PricesKept w₀)
    (fun _ _ _ hw hleaves hs => hw.trans ⟨(execute_effect hs).offers_kept hleaves,
      (execute_effect hs).terms_kept hleaves⟩) (.refl w₀) h

/-! ## Quotes at two moments -/

/-- Every mint has the decimals it had. -/
def SameDecimals (l l' : Ledger) : Prop :=
  ∀ key, (l'.mints.lookup key).map Mint.decimals = (l.mints.lookup key).map Mint.decimals

theorem SameDecimals.symm {l l' : Ledger} (h : SameDecimals l l') : SameDecimals l' l :=
  fun key => (h key).symm

/-- No run changes the decimals of a mint. -/
theorem decimals_run (w₀ : World) (actions : List Action) :
    SameDecimals w₀.ledger (run step w₀ actions).ledger := by
  intro key
  have hfixed := congrArg (Option.map (·.2.1)) ((calls_run w₀ actions).mint_fixed key)
  rwa [Option.map_map, Option.map_map] at hfixed

theorem SameDecimals.loadMint {l l' : Ledger} {key : Pubkey} {m : MintAccount}
    (h : SameDecimals l l') (hm : l.loadMint key = .ok m) :
    ∃ m', l'.loadMint key = .ok m' ∧ m'.key = m.key ∧ m'.decimals = m.decimals := by
  obtain ⟨hstored, hkey⟩ := Ledger.loadMint_eq_ok.mp hm
  have hkept := h key
  rw [hstored] at hkept
  obtain ⟨m', hm', hdecimals⟩ := Option.map_eq_some_iff.mp hkept
  exact ⟨⟨m', key⟩, Ledger.loadMint_eq_ok.mpr ⟨hm', rfl⟩, hkey.symm, hdecimals⟩

theorem SameDecimals.eq {l l' : Ledger} {key : Pubkey} {m m' : MintAccount}
    (h : SameDecimals l l') (hm : l.loadMint key = .ok m) (hm' : l'.loadMint key = .ok m') :
    m'.decimals = m.decimals := by
  obtain ⟨m₁, hm₁, _, hdecimals⟩ := h.loadMint hm
  obtain rfl : m₁ = m' := Except.ok.inj (hm₁.symm.trans hm')
  exact hdecimals

section Quotes

variable {env env' : Env} {w : World} {q : RedemptionOfferPda} {o : RedemptionOffer}
  {r : RedemptionRequest} {ctx : TakeOffer} {amount : UInt64}

theorem requestQuote_eq_ok {quote : RedemptionProcessResult} :
    requestQuote env w o r = .ok quote ↔ ∃ offer tokenIn tokenOut,
      w.offers.lookup o.offer = some offer ∧ w.ledger.loadMint o.tokenInMint = .ok tokenIn ∧
      w.ledger.loadMint o.tokenOutMint = .ok tokenOut ∧
      currentPrice env offer = .ok quote.price ∧
      redemptionConversion quote.price tokenIn.decimals tokenOut.decimals o.feeBasisPoints
        r.amount = .ok ⟨quote.tokenInFeeAmount, quote.tokenInNetAmount, quote.tokenOutAmount⟩ := by
  simp only [requestQuote, bind_eq_ok, World.loadOffer_eq_ok, processRedemptionCore_eq_ok]
  constructor
  · intro h
    obtain ⟨offer, hoffer, tokenIn, hin, tokenOut, hout, hpriced⟩ := h
    exact ⟨offer, tokenIn, tokenOut, hoffer, hin, hout, hpriced⟩
  · intro h
    obtain ⟨offer, tokenIn, tokenOut, hoffer, hin, hout, hpriced⟩ := h
    exact ⟨offer, hoffer, tokenIn, hin, tokenOut, hout, hpriced⟩

theorem takeQuote_converts {quote : OfferProcessResult} :
    takeQuote env ctx amount w = .ok quote ↔ ∃ offer tokenIn tokenOut,
      w.offers.lookup ctx.offerPda = some offer ∧ w.ledger.loadMint ctx.tokenInMint = .ok tokenIn ∧
      w.ledger.loadMint ctx.tokenOutMint = .ok tokenOut ∧
      (offer.tokenInMint = tokenIn.key ∧ offer.tokenOutMint = tokenOut.key) ∧
      currentPrice env offer = .ok quote.currentPrice ∧
      offerConversion quote.currentPrice tokenIn.decimals tokenOut.decimals offer.feeBasisPoints
        amount = .ok ⟨quote.tokenInFeeAmount, quote.tokenInNetAmount, quote.tokenOutAmount⟩ := by
  simp only [takeQuote, bind_eq_ok, World.loadOffer_eq_ok, processOfferCore_eq_ok]
  constructor
  · intro h
    obtain ⟨offer, hoffer, tokenIn, hin, tokenOut, hout, hkeyIn, hkeyOut, hpriced⟩ := h
    exact ⟨offer, tokenIn, tokenOut, hoffer, hin, hout, ⟨hkeyIn, hkeyOut⟩, hpriced⟩
  · intro h
    obtain ⟨offer, tokenIn, tokenOut, hoffer, hin, hout, ⟨hkeyIn, hkeyOut⟩, hpriced⟩ := h
    exact ⟨offer, hoffer, tokenIn, hin, tokenOut, hout, hkeyIn, hkeyOut, hpriced⟩

/-- A quote to buy holds at any higher price. -/
theorem takeQuote_later {w' : World} {offer : Offer} {price' : UInt64} {quote : OfferProcessResult}
    (hoffer : w.offers.lookup ctx.offerPda = some offer)
    (hoffer' : w'.offers.lookup ctx.offerPda = some offer)
    (hdec : SameDecimals w.ledger w'.ledger)
    (hprice' : currentPrice env' offer = .ok price') (hle : quote.currentPrice ≤ price')
    (h : takeQuote env ctx amount w = .ok quote) :
    ∃ quote', takeQuote env' ctx amount w' = .ok quote' ∧
      quote'.tokenInFeeAmount = quote.tokenInFeeAmount ∧
      quote'.tokenOutAmount ≤ quote.tokenOutAmount := by
  obtain ⟨offer₀, tokenIn, tokenOut, ho, hin, hout, hkeys, _, hconvert⟩ := takeQuote_converts.mp h
  obtain rfl : offer = offer₀ := Option.some.inj (hoffer.symm.trans ho)
  obtain ⟨tokenIn', hin', hkeyIn, hdecIn⟩ := hdec.loadMint hin
  obtain ⟨tokenOut', hout', hkeyOut, hdecOut⟩ := hdec.loadMint hout
  obtain ⟨c', hconvert', hfee, _, hle'⟩ := offerConversion_antitone hle hconvert
  refine ⟨⟨price', c'.net, c'.fee, c'.out⟩, takeQuote_converts.mpr ⟨offer, tokenIn', tokenOut',
    hoffer', hin', hout', ?_, hprice', ?_⟩, hfee, hle'⟩
  · rwa [hkeyIn, hkeyOut]
  · rwa [hdecIn, hdecOut]

/-- A quote to redeem holds at any lower price. -/
theorem requestQuote_earlier {w' : World} {o' : RedemptionOffer} {offer : Offer} {price : UInt64}
    {quote' : RedemptionProcessResult} (hterms : termsOf o' = termsOf o)
    (hoffer : w.offers.lookup o.offer = some offer)
    (hoffer' : w'.offers.lookup o.offer = some offer)
    (hdec : SameDecimals w.ledger w'.ledger)
    (hprice : currentPrice env offer = .ok price) (hle : price ≤ quote'.price)
    (h : requestQuote env' w' o' r = .ok quote') :
    ∃ quote, requestQuote env w o r = .ok quote ∧
      quote.tokenInFeeAmount = quote'.tokenInFeeAmount ∧
      quote.tokenOutAmount ≤ quote'.tokenOutAmount := by
  obtain ⟨offer₀, tokenIn, tokenOut, ho, hin, hout, _, hconvert⟩ := requestQuote_eq_ok.mp h
  simp only [termsOf, RedemptionTerms.mk.injEq] at hterms
  obtain ⟨hunder, htokenIn, htokenOut, hbps⟩ := hterms
  rw [hunder, hoffer'] at ho
  obtain rfl : offer = offer₀ := Option.some.inj ho
  rw [htokenIn] at hin
  rw [htokenOut] at hout
  rw [hbps] at hconvert
  obtain ⟨tokenIn', hin', _, hdecIn⟩ := hdec.symm.loadMint hin
  obtain ⟨tokenOut', hout', _, hdecOut⟩ := hdec.symm.loadMint hout
  obtain ⟨c, hconvert', hfee, _, hle'⟩ := redemptionConversion_mono hle hconvert
  refine ⟨⟨price, c.net, c.fee, c.out⟩, requestQuote_eq_ok.mpr ⟨offer, tokenIn', tokenOut', hoffer,
    hin', hout', hprice, ?_⟩, hfee, hle'⟩
  rwa [hdecIn, hdecOut]

section TradeBack

variable {w' : World} {take : OfferProcessResult} {redemption : RedemptionProcessResult}

theorem buy_then_redeem (hinv : Inverts q o) (hpair : ctx.offerPda = o.offer)
    (hdec : SameDecimals w.ledger w'.ledger)
    (hbuy : takeQuote env ctx amount w = .ok take)
    (hredeem : requestQuote env' w' o r = .ok redemption) (hle : r.amount ≤ take.tokenOutAmount) :
    redemption.tokenOutAmount.toNat * take.currentPrice.toNat ≤
      take.tokenInNetAmount.toNat * redemption.price.toNat := by
  obtain ⟨_, _, _, _, hin, hout, _, _, hconvert⟩ := takeQuote_converts.mp hbuy
  obtain ⟨_, _, _, _, hin', hout', _, hconvert'⟩ := requestQuote_eq_ok.mp hredeem
  obtain ⟨hinMint, houtMint⟩ := OfferPda.mk.inj (hpair.trans hinv.underlying)
  rw [hinMint] at hin
  rw [houtMint] at hout
  rw [hdec.eq hin hout', hdec.eq hout hin'] at hconvert'
  exact buy_redeem_le hconvert hle hconvert'

theorem redeem_then_buy (hinv : Inverts q o) (hpair : ctx.offerPda = o.offer)
    (hdec : SameDecimals w.ledger w'.ledger)
    (hredeem : requestQuote env w o r = .ok redemption)
    (hbuy : takeQuote env' ctx amount w' = .ok take) (hle : amount ≤ redemption.tokenOutAmount) :
    take.tokenOutAmount.toNat * take.currentPrice.toNat ≤
      redemption.tokenInNetAmount.toNat * redemption.price.toNat := by
  obtain ⟨_, _, _, _, hin, hout, _, hconvert⟩ := requestQuote_eq_ok.mp hredeem
  obtain ⟨_, _, _, _, hin', hout', _, _, hconvert'⟩ := takeQuote_converts.mp hbuy
  obtain ⟨hinMint, houtMint⟩ := OfferPda.mk.inj (hpair.trans hinv.underlying)
  rw [hinMint] at hin'
  rw [houtMint] at hout'
  rw [hdec.eq hin hout', hdec.eq hout hin'] at hconvert'
  exact redeem_buy_le hconvert hle hconvert'

end TradeBack

end Quotes

/-- While the boss sets no prices and no vector of an offer starts, its price does not fall,
whatever else runs. A buyer who waits gets no more for the same payment, and a redeemer who waits
gets no less. -/
theorem waiting_run (w : World) (later : List Action) (env env' : Env) (k : OfferPda)
    (offer : Offer) (price price' : UInt64) (hleaves : Along step LeavesPrices w later)
    (hle : env.now ≤ env'.now) (hoffer : w.offers.lookup k = some offer)
    (hquiet : NoneStarts offer env.now env'.now) (hprice : currentPrice env offer = .ok price)
    (hprice' : currentPrice env' offer = .ok price') :
    price ≤ price' ∧
      (∀ ctx amount quote, ctx.offerPda = k → takeQuote env ctx amount w = .ok quote →
        ∃ quote', takeQuote env' ctx amount (run step w later) = .ok quote' ∧
          quote'.tokenInFeeAmount = quote.tokenInFeeAmount ∧
          quote'.tokenOutAmount ≤ quote.tokenOutAmount) ∧
      ∀ q o r, w.redemptionOffers.lookup q = some o → o.offer = k →
        ∃ o', (run step w later).redemptionOffers.lookup q = some o' ∧
          ∀ quote', requestQuote env' (run step w later) o' r = .ok quote' →
            ∃ quote, requestQuote env w o r = .ok quote ∧
              quote.tokenInFeeAmount = quote'.tokenInFeeAmount ∧
              quote.tokenOutAmount ≤ quote'.tokenOutAmount := by
  have hkept := pricesKept_run hleaves
  have hoffer' := hkept.offers k offer hoffer
  have hrise := currentPrice_later hle hquiet hprice hprice'
  refine ⟨hrise, ?_, ?_⟩
  · intro ctx amount quote hk hquote
    subst hk
    obtain ⟨_, _, _, ho, _, _, _, hpriced, _⟩ := takeQuote_converts.mp hquote
    obtain rfl := Option.some.inj (hoffer.symm.trans ho)
    obtain rfl := Except.ok.inj (hprice.symm.trans hpriced)
    exact takeQuote_later hoffer hoffer' (decimals_run w later) hprice' hrise hquote
  · intro q o r ho hk
    subst hk
    obtain ⟨o', ho', hterms⟩ := hkept.redemptionOffers q o ho
    refine ⟨o', ho', fun quote' hquote' => ?_⟩
    obtain ⟨_, _, _, hunder, _, _, hpriced, _⟩ := requestQuote_eq_ok.mp hquote'
    have hsame : o'.offer = o.offer := congrArg RedemptionTerms.offer hterms
    rw [hsame, hoffer'] at hunder
    obtain rfl := Option.some.inj hunder
    obtain rfl := Except.ok.inj (hprice'.symm.trans hpriced)
    exact requestQuote_earlier hterms hoffer hoffer' (decimals_run w later) hprice hrise hquote'

/-- An offer that grows 10% a year in daily steps, and the redemption offer that inverts it. -/
def Sample.growingPair : List Action :=
  growing 100000 86400 ++ [act (.makeRedemptionOffer ⟨onyc, .token, usdc, .token, boss⟩ 0)]

/-- Ten days later, with Alice's request made meanwhile, one USDC buys less. -/
theorem waiting_run_ten_days :
    let w := run step (World.genesis (Sample.ledger Sample.issuer)) Sample.growingPair
    ∃ quote, takeQuote (Sample.env 865000) Sample.aliceTakes.toTakeOffer 1000000
        (run step w [Sample.aliceRequests]) = .ok quote ∧ quote.tokenOutAmount ≤ 999726103 := by
  intro w
  have hchecked : (w.offers.lookup ⟨Sample.usdc, Sample.onyc⟩).map (fun offer =>
      decide (NoneStarts offer 1000 865000 ∧ currentPrice (Sample.env 1000) offer = .ok 1000273972 ∧
        currentPrice (Sample.env 865000) offer = .ok 1003013698)) = some true := by decide +kernel
  obtain ⟨offer, hoffer, hoffers⟩ := Option.map_eq_some_iff.mp hchecked
  obtain ⟨hquiet, hprice, hprice'⟩ := of_decide_eq_true hoffers
  have hquote : takeQuote (Sample.env 1000) Sample.aliceTakes.toTakeOffer 1000000 w =
      .ok ⟨1000273972, 1000000, 0, 999726103⟩ := by decide +kernel
  obtain ⟨_, hbuyer, _⟩ := waiting_run w [Sample.aliceRequests] (Sample.env 1000)
    (Sample.env 865000) ⟨Sample.usdc, Sample.onyc⟩ offer 1000273972 1003013698 (by decide +kernel)
    (by decide) hoffer hquiet hprice hprice'
  obtain ⟨quote, hlater, _, hle⟩ := hbuyer _ _ _ rfl hquote
  exact ⟨quote, hlater, hle⟩

/-- Buying first and redeeming later gains at most what the price gained in between, redeeming
first and buying back later at most what it lost: whatever runs in between, and whoever moves the
price. -/
theorem trade_back_run (l : Ledger) (before later : List Action) (env env' : Env) (ctx : TakeOffer)
    (amount : UInt64) (q : RedemptionOfferPda) (r : RedemptionRequest)
    (take : OfferProcessResult) (redemption : RedemptionProcessResult) :
    let w := run step (World.genesis l) before
    let w' := run step w later
    (∀ o, w'.redemptionOffers.lookup q = some o → ctx.offerPda = o.offer →
      takeQuote env ctx amount w = .ok take → requestQuote env' w' o r = .ok redemption →
      r.amount ≤ take.tokenOutAmount →
        redemption.tokenOutAmount.toNat * take.currentPrice.toNat ≤
          take.tokenInNetAmount.toNat * redemption.price.toNat) ∧
    ∀ o, w.redemptionOffers.lookup q = some o → ctx.offerPda = o.offer →
      requestQuote env w o r = .ok redemption → takeQuote env' ctx amount w' = .ok take →
      amount ≤ redemption.tokenOutAmount →
        take.tokenOutAmount.toNat * take.currentPrice.toNat ≤
          redemption.tokenInNetAmount.toNat * redemption.price.toNat := by
  intro w w'
  have hdec := decimals_run w later
  constructor
  · intro o ho hpair hbuy hredeem hle
    have hinv : Inverts q o := inverts_run l (before ++ later) (by rwa [run_append])
    exact buy_then_redeem hinv hpair hdec hbuy hredeem hle
  · intro o ho hpair hredeem hbuy hle
    exact redeem_then_buy (inverts_run l before ho) hpair hdec hredeem hbuy hle

/-- Alice redeems ten days later all that one USDC bought her: 1.002738 USDC. -/
theorem trade_back_run_ten_days :
    let w := run step (World.genesis (Sample.ledger Sample.issuer)) Sample.growingPair
    ∃ o take redemption, w.redemptionOffers.lookup ⟨Sample.onyc, Sample.usdc⟩ = some o ∧
      takeQuote (Sample.env 1000) Sample.aliceTakes.toTakeOffer 1000000 w = .ok take ∧
      requestQuote (Sample.env 865000) w o
        ⟨⟨Sample.onyc, Sample.usdc⟩, 0, Sample.alice, take.tokenOutAmount⟩ = .ok redemption ∧
      redemption.tokenOutAmount = 1002738 ∧
      redemption.tokenOutAmount.toNat * take.currentPrice.toNat ≤
        take.tokenInNetAmount.toNat * redemption.price.toNat := by
  intro w
  have hoffer : w.redemptionOffers.lookup ⟨Sample.onyc, Sample.usdc⟩ =
      some ⟨⟨Sample.usdc, Sample.onyc⟩, Sample.onyc, Sample.usdc, 0, 0, 0, 0⟩ := by decide +kernel
  have hbuy : takeQuote (Sample.env 1000) Sample.aliceTakes.toTakeOffer 1000000 w =
      .ok ⟨1000273972, 1000000, 0, 999726103⟩ := by decide +kernel
  have hredeem : requestQuote (Sample.env 865000) w
      ⟨⟨Sample.usdc, Sample.onyc⟩, Sample.onyc, Sample.usdc, 0, 0, 0, 0⟩
        ⟨⟨Sample.onyc, Sample.usdc⟩, 0, Sample.alice, 999726103⟩ =
      .ok ⟨1003013698, 999726103, 0, 1002738⟩ := by decide +kernel
  refine ⟨_, _, _, hoffer, hbuy, hredeem, rfl, ?_⟩
  exact (trade_back_run (Sample.ledger Sample.issuer) Sample.growingPair [] (Sample.env 1000)
    (Sample.env 865000) Sample.aliceTakes.toTakeOffer 1000000 ⟨Sample.onyc, Sample.usdc⟩ _ _ _).1 _
    hoffer rfl hbuy hredeem (UInt64.le_refl _)

end OnreApp.Program
