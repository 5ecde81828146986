import Mathlib.Data.List.Forall2
import OnreApp.Redemption.RedemptionUtils

/-!
# Laws of the two conversions

A purchase converts what is left after its fee at a price, a redemption converts back. Both
round in the protocol's favour: a round trip returns at most what was paid net of the fee,
and cutting an amount into parts neither raises the payout nor lowers the fees.
-/
namespace OnreApp.Redemption

open Library.Checked Library.Outcome Library.Rounding Offers Tokens Utils

/-- The fee of a conversion, the amount it converts and what it pays. -/
structure Conversion where
  fee : UInt64
  net : UInt64
  out : UInt64
  deriving DecidableEq

/-- `calculate_fees` and `calculate_token_out_amount`, as `process_offer_core` applies them. -/
def offerConversion (price : UInt64) (inDecimals outDecimals : UInt8) (fee : UInt16)
    (amount : UInt64) : Except Error Conversion := do
  let fees ← calculateFees amount fee
  let out ← calculateTokenOutAmount fees.tokenInNetAmount price inDecimals outDecimals
  pure ⟨fees.tokenInFeeAmount, fees.tokenInNetAmount, out⟩

/-- `calculate_fees` and the conversion of `process_redemption_core`. -/
def redemptionConversion (price : UInt64) (inDecimals outDecimals : UInt8) (fee : UInt16)
    (amount : UInt64) : Except Error Conversion := do
  let fees ← calculateFees amount fee
  let out ← redemptionTokenOut fees.tokenInNetAmount price inDecimals outDecimals
  pure ⟨fees.tokenInFeeAmount, fees.tokenInNetAmount, out⟩

theorem processOfferCore_eq_ok {env : Program.Env} {offer : Offer} {amount : UInt64}
    {tokenIn tokenOut : MintAccount} {r : OfferProcessResult} :
    processOfferCore env offer amount tokenIn tokenOut = .ok r ↔
      offer.tokenInMint = tokenIn.key ∧ offer.tokenOutMint = tokenOut.key ∧
        currentPrice env offer = .ok r.currentPrice ∧
        offerConversion r.currentPrice tokenIn.decimals tokenOut.decimals offer.feeBasisPoints
          amount = .ok ⟨r.tokenInFeeAmount, r.tokenInNetAmount, r.tokenOutAmount⟩ := by
  obtain ⟨price, net, fee, out⟩ := r
  simp only [processOfferCore, offerConversion, bind_eq_ok, require_eq_ok, pure_eq_ok]
  constructor
  · rintro ⟨_, hi, _, ho, p, hp, fees, hf, out, hout, he⟩
    cases he
    exact ⟨hi, ho, hp, fees, hf, _, hout, rfl⟩
  · rintro ⟨hi, ho, hp, fees, hf, out, hout, he⟩
    cases he
    exact ⟨⟨⟩, hi, ⟨⟩, ho, _, hp, fees, hf, _, hout, rfl⟩

theorem processRedemptionCore_eq_ok {env : Program.Env} {offer : Offer} {amount : UInt64}
    {tokenIn tokenOut : MintAccount} {fee : UInt16} {r : RedemptionProcessResult} :
    processRedemptionCore env offer amount tokenIn tokenOut fee = .ok r ↔
      currentPrice env offer = .ok r.price ∧
        redemptionConversion r.price tokenIn.decimals tokenOut.decimals fee amount =
          .ok ⟨r.tokenInFeeAmount, r.tokenInNetAmount, r.tokenOutAmount⟩ := by
  obtain ⟨price, net, fee, out⟩ := r
  simp only [processRedemptionCore, redemptionConversion, bind_eq_ok, pure_eq_ok]
  constructor
  · rintro ⟨p, hp, fees, hf, out, hout, he⟩
    cases he
    exact ⟨hp, fees, hf, _, hout, rfl⟩
  · rintro ⟨hp, fees, hf, out, hout, he⟩
    cases he
    exact ⟨_, hp, fees, hf, _, hout, rfl⟩

section Exact

variable {price : UInt64} {inDec outDec : UInt8} {fee : UInt16}

theorem offerConversion_eq_ok (hfee : fee.toNat ≤ maxBasisPoints) {amount : UInt64}
    {c : Conversion} : offerConversion price inDec outDec fee amount = .ok c ↔
      (0 < price.toNat ∧ inDec.toNat ≤ 18 ∧ outDec.toNat ≤ 18 ∧
        netOf amount.toNat fee.toNat * 10 ^ (outDec.toNat + priceDecimals) < 2 ^ 128) ∧
      c.fee.toNat = feeOf amount.toNat fee.toNat ∧ c.net.toNat = netOf amount.toNat fee.toNat ∧
      c.out.toNat = netOf amount.toNat fee.toNat * 10 ^ (outDec.toNat + priceDecimals) /
        (price.toNat * 10 ^ inDec.toNat) := by
  simp only [offerConversion, bind_eq_ok, calculateFees_eq_ok hfee, calculateTokenOutAmount_eq_ok,
    pure_eq_ok]
  constructor
  · rintro ⟨r, ⟨hf, hn⟩, out, ⟨hp, hi, ho, hlt, hout⟩, rfl⟩
    rw [hn] at hlt hout
    exact ⟨⟨hp, hi, ho, hlt⟩, hf, hn, hout⟩
  · rintro ⟨⟨hp, hi, ho, hlt⟩, hf, hn, hout⟩
    rw [← hn] at hlt hout
    exact ⟨⟨c.fee, c.net⟩, ⟨hf, hn⟩, c.out, ⟨hp, hi, ho, hlt, hout⟩, rfl⟩

theorem redemptionConversion_eq_ok (hfee : fee.toNat ≤ maxBasisPoints) (hi : inDec.toNat ≤ 18)
    (ho : outDec.toNat ≤ 18) {amount : UInt64} {c : Conversion} :
    redemptionConversion price inDec outDec fee amount = .ok c ↔
      netOf amount.toNat fee.toNat * (price.toNat * 10 ^ outDec.toNat) < 2 ^ 128 ∧
      c.fee.toNat = feeOf amount.toNat fee.toNat ∧ c.net.toNat = netOf amount.toNat fee.toNat ∧
      c.out.toNat = netOf amount.toNat fee.toNat * (price.toNat * 10 ^ outDec.toNat) /
        10 ^ (inDec.toNat + priceDecimals) := by
  simp only [redemptionConversion, bind_eq_ok, calculateFees_eq_ok hfee,
    redemptionTokenOut_eq_ok hi ho, pure_eq_ok, Nat.mul_assoc]
  constructor
  · rintro ⟨r, ⟨hf, hn⟩, out, ⟨hlt, hout⟩, rfl⟩
    rw [hn] at hlt hout
    exact ⟨hlt, hf, hn, hout⟩
  · rintro ⟨hlt, hf, hn, hout⟩
    rw [← hn] at hlt hout
    exact ⟨⟨c.fee, c.net⟩, ⟨hf, hn⟩, c.out, ⟨hlt, hout⟩, rfl⟩

end Exact

/-- The exact part of both round trips: scaling down and back never gains. -/
theorem round_trip_le {price : UInt64} {inDec outDec : UInt8} {takeFee redemptionFee : UInt16}
    (ht : takeFee.toNat ≤ maxBasisPoints) (hr : redemptionFee.toNat ≤ maxBasisPoints)
    {x y' : UInt64} {take redemption : Conversion}
    (htake : offerConversion price inDec outDec takeFee x = .ok take) (hy : y' ≤ take.out)
    (hredeem : redemptionConversion price outDec inDec redemptionFee y' = .ok redemption) :
    redemption.out ≤ take.net := by
  obtain ⟨⟨_, hi, ho, _⟩, _, hnet, hout⟩ := (offerConversion_eq_ok ht).mp htake
  obtain ⟨_, _, _, hz⟩ := (redemptionConversion_eq_ok hr ho hi).mp hredeem
  rw [UInt64.le_iff_toNat_le] at hy ⊢
  rw [hz]
  calc netOf y'.toNat redemptionFee.toNat * (price.toNat * 10 ^ inDec.toNat) /
        10 ^ (outDec.toNat + priceDecimals)
      ≤ take.out.toNat * (price.toNat * 10 ^ inDec.toNat) / 10 ^ (outDec.toNat + priceDecimals) :=
        Nat.div_le_div_right (Nat.mul_le_mul_right _ ((netOf_le hr).trans hy))
    _ ≤ take.net.toNat := by
        rw [hout, ← hnet]
        exact div_mul_div_le _ _ _

/-- One purchase and one redemption at one price return at most what was paid less the
purchase fee, whatever part of the bought tokens is redeemed. -/
theorem no_round_trip_profit (price : UInt64) (inDec outDec : UInt8)
    (takeFee redemptionFee : UInt16) (ht : takeFee.toNat ≤ maxBasisPoints)
    (hr : redemptionFee.toNat ≤ maxBasisPoints) (x y' : UInt64) (take redemption : Conversion)
    (htake : offerConversion price inDec outDec takeFee x = .ok take) (hy : y' ≤ take.out)
    (hredeem : redemptionConversion price outDec inDec redemptionFee y' = .ok redemption) :
    redemption.out ≤ take.net ∧ take.net ≤ x ∧ take.net = x - take.fee := by
  obtain ⟨_, hfee, hnet, _⟩ := (offerConversion_eq_ok ht).mp htake
  have hle : take.net.toNat ≤ x.toNat := hnet ▸ netOf_le ht
  have hfeele : take.fee ≤ x := UInt64.le_iff_toNat_le.mpr (hfee ▸ feeOf_le ht)
  refine ⟨round_trip_le ht hr htake hy hredeem, UInt64.le_iff_toNat_le.mpr hle, ?_⟩
  rw [← UInt64.toNat_inj, UInt64.toNat_sub_of_le _ _ hfeele, hfee, sub_feeOf ht, hnet]

/-- 10 USDC (6 decimals) at price 1.5 with a fee of 5% buy 6.333333333 tokens; redeeming all
of them with a fee of 1% returns 9.404999 USDC of the 9.5 converted. -/
theorem no_round_trip_profit_usdc :
    (9404999 : UInt64) ≤ 9500000 ∧ (9500000 : UInt64) ≤ 10000000 ∧
      (9500000 : UInt64) = 10000000 - 500000 :=
  no_round_trip_profit 1500000000 6 9 500 100 (by decide) (by decide) 10000000 6333333333
    ⟨500000, 9500000, 6333333333⟩ ⟨63333334, 6269999999, 9404999⟩ (by decide) (by decide)
    (by decide)

/-- The instruction-level form: two processed exchanges at the same price. -/
theorem process_round_trip {env env' : Program.Env} {offer offer' : Offer} {x y' : UInt64}
    {tokenIn tokenOut : MintAccount} {redemptionFee : UInt16} {take : OfferProcessResult}
    {redemption : RedemptionProcessResult} (ht : offer.feeBasisPoints.toNat ≤ maxBasisPoints)
    (hr : redemptionFee.toNat ≤ maxBasisPoints)
    (htake : processOfferCore env offer x tokenIn tokenOut = .ok take)
    (hy : y' ≤ take.tokenOutAmount)
    (hredeem : processRedemptionCore env' offer' y' tokenOut tokenIn redemptionFee = .ok redemption)
    (hprice : redemption.price = take.currentPrice) :
    redemption.tokenOutAmount ≤ take.tokenInNetAmount := by
  obtain ⟨_, _, _, hc⟩ := processOfferCore_eq_ok.mp htake
  obtain ⟨_, hc'⟩ := processRedemptionCore_eq_ok.mp hredeem
  rw [hprice] at hc'
  exact round_trip_le ht hr hc hy hc'

/-! ## Splitting -/

/-- A conversion in exact arithmetic: it succeeds below a bound, its fee is proportional and
rounded up, and its payout is superadditive. -/
structure ExactConversion (convert : UInt64 → Except Error Conversion) (bps : ℕ)
    (succeeds : ℕ → Prop) (out : ℕ → ℕ) : Prop where
  eq_ok : ∀ a c, convert a = .ok c ↔ succeeds a.toNat ∧ c.fee.toNat = feeOf a.toNat bps ∧
    c.net.toNat = netOf a.toNat bps ∧ c.out.toNat = out a.toNat
  fee_le : bps ≤ maxBasisPoints
  below : ∀ m n, m ≤ n → succeeds n → succeeds m
  superadditive : Superadditive out

namespace ExactConversion

variable {convert : UInt64 → Except Error Conversion} {bps : ℕ} {succeeds : ℕ → Prop}
  {out : ℕ → ℕ}

/-- What is converted below a successful amount succeeds and pays no more. -/
theorem of_le (h : ExactConversion convert bps succeeds out) {a b : UInt64} (hab : a ≤ b)
    {c : Conversion} (hb : convert b = .ok c) : ∃ c', convert a = .ok c' ∧ c'.out ≤ c.out := by
  obtain ⟨hs, _, _, ho⟩ := (h.eq_ok b c).mp hb
  have hle : a.toNat ≤ b.toNat := UInt64.le_iff_toNat_le.mp hab
  have hout : out a.toNat ≤ c.out.toNat := ho ▸ h.superadditive.monotone hle
  have hfit : ∀ n, n ≤ a.toNat → (UInt64.ofNat n).toNat = n := fun n hn =>
    toNat_ofNat_of_lt (hn.trans_lt a.toNat_lt)
  have hout' : (UInt64.ofNat (out a.toNat)).toNat = out a.toNat :=
    toNat_ofNat_of_lt (hout.trans_lt c.out.toNat_lt)
  refine ⟨⟨UInt64.ofNat (feeOf a.toNat bps), UInt64.ofNat (netOf a.toNat bps),
    UInt64.ofNat (out a.toNat)⟩, (h.eq_ok a _).mpr ⟨h.below _ _ hle hs, ?_, ?_, hout'⟩, ?_⟩
  · exact hfit _ (feeOf_le h.fee_le)
  · exact hfit _ (netOf_le h.fee_le)
  · rw [UInt64.le_iff_toNat_le, hout']
    exact hout

theorem split (h : ExactConversion convert bps succeeds out) {parts : List UInt64} {total : UInt64}
    (hsum : (parts.map UInt64.toNat).sum = total.toNat) {c : Conversion}
    (hc : convert total = .ok c) :
    ∃ cs, List.Forall₂ (fun a c => convert a = .ok c) parts cs ∧
      (cs.map (·.out.toNat)).sum ≤ c.out.toNat ∧ c.fee.toNat ≤ (cs.map (·.fee.toNat)).sum := by
  have hall : ∀ a ∈ parts, a ≤ total := fun a ha => by
    rw [UInt64.le_iff_toNat_le, ← hsum]
    exact List.single_le_sum (fun _ _ => Nat.zero_le _) _ (List.mem_map_of_mem ha)
  -- The parts convert one by one; their exact results are what is summed.
  have hparts : ∃ cs, List.Forall₂ (fun a c => convert a = .ok c) parts cs ∧
      cs.map (·.out.toNat) = parts.map (fun a => out a.toNat) ∧
      cs.map (·.fee.toNat) = parts.map (fun a => feeOf a.toNat bps) := by
    clear hsum
    induction parts with
    | nil => exact ⟨[], .nil, rfl, rfl⟩
    | cons a as ih =>
      obtain ⟨cs, hcs, ho, hf⟩ := ih fun b hb => hall b (List.mem_cons_of_mem _ hb)
      obtain ⟨d, hd, _⟩ := h.of_le (hall a List.mem_cons_self) hc
      obtain ⟨_, hdf, _, hdo⟩ := (h.eq_ok a d).mp hd
      refine ⟨d :: cs, .cons hd hcs, ?_, ?_⟩
      · rw [List.map_cons, List.map_cons, ho, hdo]
      · rw [List.map_cons, List.map_cons, hf, hdf]
  obtain ⟨cs, hcs, ho, hf⟩ := hparts
  obtain ⟨_, hcf, _, hco⟩ := (h.eq_ok total c).mp hc
  refine ⟨cs, hcs, ?_, ?_⟩
  · have hle := h.superadditive.sum_le (parts.map UInt64.toNat)
    rw [hsum, List.map_map, ← hco] at hle
    rw [ho]
    exact hle
  · have hle := ceilDiv_sum_le bps maxBasisPoints_pos (parts.map UInt64.toNat)
    rw [hsum, List.map_map] at hle
    rw [hcf, hf]
    exact hle

end ExactConversion

section Conversions

variable (price : UInt64) (inDec outDec : UInt8) (fee : UInt16)

/-- The payout of an exact conversion is superadditive: it floors a multiple of the net
amount, which floors a share of the amount. -/
theorem superadditive_payout (bps k d : ℕ) : Superadditive fun n => netOf n bps * k / d :=
  (superadditive_div_mul k d).comp (superadditive_div_mul (maxBasisPoints - bps) maxBasisPoints)

theorem netOf_mono {m n : ℕ} (bps : ℕ) (h : m ≤ n) : netOf m bps ≤ netOf n bps :=
  Nat.div_le_div_right (Nat.mul_le_mul_right _ h)

theorem exact_offerConversion (hfee : fee.toNat ≤ maxBasisPoints) :
    ExactConversion (offerConversion price inDec outDec fee) fee.toNat
      (fun n => 0 < price.toNat ∧ inDec.toNat ≤ 18 ∧ outDec.toNat ≤ 18 ∧
        netOf n fee.toNat * 10 ^ (outDec.toNat + priceDecimals) < 2 ^ 128)
      (fun n => netOf n fee.toNat * 10 ^ (outDec.toNat + priceDecimals) /
        (price.toNat * 10 ^ inDec.toNat)) where
  eq_ok _ _ := offerConversion_eq_ok hfee
  fee_le := hfee
  below _ _ hle h :=
    ⟨h.1, h.2.1, h.2.2.1, (Nat.mul_le_mul_right _ (netOf_mono _ hle)).trans_lt h.2.2.2⟩
  superadditive := superadditive_payout _ _ _

theorem exact_redemptionConversion (hfee : fee.toNat ≤ maxBasisPoints) (hi : inDec.toNat ≤ 18)
    (ho : outDec.toNat ≤ 18) :
    ExactConversion (redemptionConversion price inDec outDec fee) fee.toNat
      (fun n => netOf n fee.toNat * (price.toNat * 10 ^ outDec.toNat) < 2 ^ 128)
      (fun n => netOf n fee.toNat * (price.toNat * 10 ^ outDec.toNat) /
        10 ^ (inDec.toNat + priceDecimals)) where
  eq_ok _ _ := redemptionConversion_eq_ok hfee hi ho
  fee_le := hfee
  below _ _ hle h := (Nat.mul_le_mul_right _ (netOf_mono _ hle)).trans_lt h
  superadditive := superadditive_payout _ _ _

/-- A conversion splits when every list of parts of a successful amount converts part by
part, for no more in total and at no lower fees, and payouts are monotone. -/
def SplitsUnprofitably (convert : UInt64 → Except Error Conversion) : Prop :=
  (∀ (parts : List UInt64) (total : UInt64) (c : Conversion),
    (parts.map UInt64.toNat).sum = total.toNat → convert total = .ok c →
      ∃ cs, List.Forall₂ (fun a c => convert a = .ok c) parts cs ∧
        (cs.map (·.out.toNat)).sum ≤ c.out.toNat ∧ c.fee.toNat ≤ (cs.map (·.fee.toNat)).sum) ∧
  ∀ (a b : UInt64) (c : Conversion), a ≤ b → convert b = .ok c →
    ∃ c', convert a = .ok c' ∧ c'.out ≤ c.out

theorem ExactConversion.splitsUnprofitably {convert : UInt64 → Except Error Conversion} {bps : ℕ}
    {succeeds : ℕ → Prop} {out : ℕ → ℕ} (h : ExactConversion convert bps succeeds out) :
    SplitsUnprofitably convert :=
  ⟨fun _ _ _ hsum hc => h.split hsum hc, fun _ _ _ hab hc => h.of_le hab hc⟩

/-- Cutting a trade into any number of parts never pays, on either path. -/
theorem splitting_never_pays (hfee : fee.toNat ≤ maxBasisPoints) (hi : inDec.toNat ≤ 18)
    (ho : outDec.toNat ≤ 18) :
    SplitsUnprofitably (offerConversion price inDec outDec fee) ∧
      SplitsUnprofitably (redemptionConversion price inDec outDec fee) :=
  ⟨(exact_offerConversion price inDec outDec fee hfee).splitsUnprofitably,
    (exact_redemptionConversion price inDec outDec fee hfee hi ho).splitsUnprofitably⟩

/-- Three takes instead of one, at price 1.5 with a fee of 1%: each part pays a fee of its
own and loses its own remainder. -/
theorem splitting_never_pays_three :
    ∃ cs, List.Forall₂ (fun a c => offerConversion 1500000000 6 9 100 a = .ok c) [7, 8, 9] cs ∧
      (cs.map (·.out.toNat)).sum ≤ 15333 ∧ 1 ≤ (cs.map (·.fee.toNat)).sum :=
  (splitting_never_pays 1500000000 6 9 100 (by decide) (by decide) (by decide)).1.1 [7, 8, 9] 24
    ⟨1, 23, 15333⟩ (by decide) (by decide)

end Conversions

end OnreApp.Redemption
