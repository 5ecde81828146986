import OnreApp.Offers.TakeEffect
import OnreApp.Program.FeeCeiling
import OnreApp.Program.NoArbitrage

/-!
# The fuzz harness on a take

The repository's fuzz harness computes for itself what a take must do. Here is that computation
beside the program's, and what a take must be like for the harness to accept it.
-/
namespace OnreApp.Program

open Library.Checked Library.Outcome Library.Rounding Library.Run Library.Search Offers Tokens Utils

/-! ## What the harness computes

Every `expect` and every assertion that fails is a `none`. -/

namespace FuzzTest

def findActivePricingVector (vectors : List OfferVector) (time : UInt64) : Option OfferVector :=
  maxByKey startKey (vectors.filter fun v => v.startTime ≠ 0 ∧ v.startTime ≤ time)

def calculatePrice (apr basePrice baseTime priceFixDuration currentTime : UInt64) :
    Option UInt64 :=
  if currentTime < baseTime then some basePrice else do
    let elapsedSinceStart := currentTime.toNat - baseTime.toNat
    guard (priceFixDuration ≠ 0)
    let currentStep := elapsedSinceStart / priceFixDuration.toNat
    let nextStep ← checkedAdd 64 currentStep 1
    let stepEndTime ← checkedMul 64 nextStep priceFixDuration.toNat
    let factorDen ← checkedMul 128 aprScale secondsInYear
    let yPart ← checkedMul 128 apr.toNat stepEndTime
    let factorNum ← checkedAdd 128 factorDen yPart
    let scaled ← checkedMul 128 basePrice.toNat factorNum
    let price := scaled / factorDen
    guard (price < 2 ^ 64)
    some (UInt64.ofNat price)

def calculateTokenOut (tokenInAmount price : UInt64) (tokenInDecimals tokenOutDecimals : UInt8) :
    Option UInt64 := do
  let scaled ← checkedMul 128 tokenInAmount.toNat (10 ^ priceDecimals)
  let outScale ← (pow10 tokenOutDecimals.toNat).toOption
  let numerator ← checkedMul 128 scaled outScale
  let inScale ← (pow10 tokenInDecimals.toNat).toOption
  let denominator ← checkedMul 128 price.toNat inScale
  guard (denominator ≠ 0)
  let tokenOut := numerator / denominator
  guard (tokenOut < 2 ^ 64)
  some (UInt64.ofNat tokenOut)

/-- What the harness reads around a take, of what it compares. -/
structure TakeObserved where
  offerBefore : Offer
  userTokenInBefore : ℕ
  userTokenInAfter : ℕ
  userTokenOutBefore : Option ℕ
  userTokenOutAfter : ℕ
  bossTokenInBefore : ℕ
  bossTokenInAfter : ℕ
  tokenInMintBefore : Mint
  tokenOutMintBefore : Mint
  tokenInAmount : UInt64
  currentTime : UInt64

def takeOfferInvariant (o : TakeObserved) : Option Unit := do
  let userPaid ← checkedSub o.userTokenInBefore o.userTokenInAfter
  guard (userPaid = o.tokenInAmount.toNat)
  let bossReceived ← checkedSub o.bossTokenInAfter o.bossTokenInBefore
  guard (bossReceived = o.tokenInAmount.toNat)
  let userReceived ← checkedSub o.userTokenOutAfter (o.userTokenOutBefore.getD 0)
  let activeVector ← findActivePricingVector o.offerBefore.slots o.currentTime
  let price ← calculatePrice activeVector.apr activeVector.basePrice activeVector.baseTime
    activeVector.priceFixDuration o.currentTime
  let fee :=
    UInt64.ofNat (o.tokenInAmount.toNat * o.offerBefore.feeBasisPoints.toNat / maxBasisPoints)
  let remaining ← checkedSub o.tokenInAmount.toNat fee.toNat
  let expected ← calculateTokenOut (UInt64.ofNat remaining) price o.tokenInMintBefore.decimals
    o.tokenOutMintBefore.decimals
  guard (userReceived = expected.toNat)

/-! ## Where it agrees with the program -/

theorem findActivePricingVector_eq {offer : Offer} {time : UInt64} {v : OfferVector}
    (h : findActiveVectorAt offer time = .ok v) :
    findActivePricingVector offer.slots time = some v :=
  (okOr_eq_ok _ _ _).mp h

/-- A price the program finds, the harness finds. -/
theorem calculatePrice_eq {apr basePrice baseTime priceFixDuration time price : UInt64}
    (h : calculateStepPriceAt apr basePrice baseTime priceFixDuration time = .ok price) :
    calculatePrice apr basePrice baseTime priceFixDuration time = some price := by
  simp only [calculateStepPriceAt, calculateVectorPrice, bind_eq_ok, require_eq_ok, okOr_eq_ok,
    checkedAdd_eq_some, checkedMul_eq_some, pure_eq_ok] at h
  obtain ⟨_, hbase, _, hduration, _, ⟨hnext, rfl⟩, _, ⟨hend, rfl⟩, _, ⟨hden, rfl⟩, _, ⟨hy, rfl⟩, _,
    ⟨hnum, rfl⟩, _, ⟨hscaled, rfl⟩, _, hfits, rfl⟩ := h
  rw [toNat_ofNat_of_lt hend] at hy hnum hscaled hfits ⊢
  simp only [calculatePrice, if_neg (UInt64.not_lt.mpr hbase), Option.bind_eq_bind,
    Option.bind_eq_some_iff, Option.guard_eq_some', checkedAdd_eq_some, checkedMul_eq_some]
  exact ⟨⟨⟩, hduration, _, ⟨hnext, rfl⟩, _, ⟨hend, rfl⟩, _, ⟨hden, rfl⟩, _, ⟨hy, rfl⟩, _,
    ⟨hnum, rfl⟩, _, ⟨hscaled, rfl⟩, ⟨⟩, hfits, rfl⟩

/-- Where the decimals and the price suit the program, both convert alike. -/
theorem calculateTokenOut_eq_some {amount price out : UInt64} {inDec outDec : UInt8}
    (hprice : 0 < price.toNat) (hin : inDec.toNat ≤ 18) (hout : outDec.toNat ≤ 18) :
    calculateTokenOut amount price inDec outDec = some out ↔
      calculateTokenOutAmount amount price inDec outDec = .ok out := by
  have hscales : 10 ^ priceDecimals * 10 ^ outDec.toNat = 10 ^ (outDec.toNat + priceDecimals) := by
    rw [← Nat.pow_add, Nat.add_comm]
  have hpow : ∀ d ≤ 18, 10 ^ d < 2 ^ 128 := fun d hd =>
    (Nat.pow_le_pow_right (by decide) hd).trans_lt (by decide)
  have hden : price.toNat * 10 ^ inDec.toNat < 2 ^ 128 := by
    have hle : 10 ^ inDec.toNat ≤ 10 ^ 18 := Nat.pow_le_pow_right (by decide) hin
    exact (Nat.mul_le_mul price.toNat_lt.le hle).trans_lt (by decide)
  simp only [calculateTokenOut, Option.bind_eq_bind, Option.bind_eq_some_iff,
    Option.guard_eq_some', checkedMul_eq_some, toOption_eq_some, pow10_eq_ok]
  rw [calculateTokenOutAmount_eq_ok, ← hscales, ← Nat.mul_assoc]
  constructor
  · intro h
    obtain ⟨_, ⟨_, rfl⟩, _, ⟨_, rfl⟩, _, ⟨hnum, rfl⟩, _, ⟨_, rfl⟩, _, ⟨_, rfl⟩, _, _, _, hfits,
      hresult⟩ := h
    rw [← Option.some.inj hresult]
    exact ⟨hprice, hin, hout, hnum, toNat_ofNat_of_lt hfits⟩
  · intro h
    obtain ⟨_, _, _, hnum, hresult⟩ := h
    have hscaled : amount.toNat * 10 ^ priceDecimals < 2 ^ 128 :=
      (Nat.le_mul_of_pos_right _ (Nat.pow_pos (Nat.succ_pos 9))).trans_lt hnum
    refine ⟨_, ⟨hscaled, rfl⟩, _, ⟨hpow _ hout, rfl⟩, _, ⟨hnum, rfl⟩, _, ⟨hpow _ hin, rfl⟩, _,
      ⟨hden, rfl⟩, ⟨⟩, ?_, ⟨⟩, ?_, ?_⟩
    · exact (Nat.mul_pos hprice (Nat.pow_pos (Nat.succ_pos 9))).ne'
    · rw [← hresult]
      exact out.toNat_lt
    · rw [← hresult, UInt64.ofNat_toNat]

/-- With the payment and the payout as the program computes them, two comparisons are left. -/
theorem takeOfferInvariant_iff {o : TakeObserved} {v : OfferVector} {price out : UInt64}
    (hfee : o.offerBefore.feeBasisPoints.toNat ≤ maxBasisPoints)
    (hpaid : o.userTokenInAfter + o.tokenInAmount.toNat = o.userTokenInBefore)
    (hreceived : o.userTokenOutAfter = o.userTokenOutBefore.getD 0 + out.toNat)
    (hactive : findActiveVectorAt o.offerBefore o.currentTime = .ok v)
    (hprice : stepPriceAt v o.currentTime = .ok price) :
    takeOfferInvariant o = some () ↔
      o.bossTokenInAfter = o.bossTokenInBefore + o.tokenInAmount.toNat ∧
        calculateTokenOut (UInt64.ofNat (o.tokenInAmount.toNat -
          o.tokenInAmount.toNat * o.offerBefore.feeBasisPoints.toNat / maxBasisPoints)) price
          o.tokenInMintBefore.decimals o.tokenOutMintBefore.decimals = some out := by
  have hfloor : o.tokenInAmount.toNat * o.offerBefore.feeBasisPoints.toNat / maxBasisPoints ≤
      o.tokenInAmount.toNat := by
    apply Nat.div_le_of_le_mul
    rw [Nat.mul_comm]
    exact Nat.mul_le_mul_right _ hfee
  have hnarrow : (UInt64.ofNat
      (o.tokenInAmount.toNat * o.offerBefore.feeBasisPoints.toNat / maxBasisPoints)).toNat =
        o.tokenInAmount.toNat * o.offerBefore.feeBasisPoints.toNat / maxBasisPoints :=
    toNat_ofNat_of_lt (hfloor.trans_lt o.tokenInAmount.toNat_lt)
  unfold takeOfferInvariant
  simp only [Option.bind_eq_bind, Option.bind_eq_some_iff, Option.guard_eq_some',
    checkedSub_eq_some, findActivePricingVector_eq hactive, Option.some.injEq,
    exists_eq_left', calculatePrice_eq hprice, hnarrow]
  constructor
  · intro h
    obtain ⟨_, _, _, _, _, ⟨hle, rfl⟩, _, hboss, _, ⟨_, rfl⟩, _, ⟨_, rfl⟩, expected, hexpected,
      heq⟩ := h
    refine ⟨by omega, ?_⟩
    rw [hexpected]
    congr 1
    apply UInt64.toNat_inj.mp
    omega
  · intro h
    obtain ⟨hboss, hexpected⟩ := h
    refine ⟨_, ⟨by omega, rfl⟩, ⟨⟩, by omega, _, ⟨by omega, rfl⟩, ⟨⟩, by omega, _, ⟨by omega, rfl⟩,
      _, ⟨hfloor, rfl⟩, out, hexpected, by omega⟩

/-! ## Around a take of the program -/

/-- What `take_offer` of the harness reads before and after. -/
def observe (env : Env) (ctx : TakeOffer) (amount : UInt64) (w w' : World) :
    Option TakeObserved := do
  let offer ← w.offers.lookup ctx.offerPda
  let tokenInMint ← w.ledger.mints.lookup ctx.tokenInMint
  let tokenOutMint ← w.ledger.mints.lookup ctx.tokenOutMint
  let userTokenInBefore ← w.ledger.accounts.lookup (ctx.tokenInAccount ctx.user.key)
  let bossTokenInBefore ← w.ledger.accounts.lookup (ctx.tokenInAccount ctx.boss)
  let userTokenInAfter ← w'.ledger.accounts.lookup (ctx.tokenInAccount ctx.user.key)
  let userTokenOutAfter ← w'.ledger.accounts.lookup (ctx.tokenOutAccount ctx.user.key)
  let bossTokenInAfter ← w'.ledger.accounts.lookup (ctx.tokenInAccount ctx.boss)
  some { offerBefore := offer, userTokenInBefore, userTokenInAfter,
         userTokenOutBefore := w.ledger.accounts.lookup (ctx.tokenOutAccount ctx.user.key),
         userTokenOutAfter, bossTokenInBefore, bossTokenInAfter, tokenInMintBefore := tokenInMint,
         tokenOutMintBefore := tokenOutMint, tokenInAmount := amount, currentTime := env.now }

/-- The harness goes on after a take that went through. -/
def Accepts (env : Env) (ctx : TakeOffer) (amount : UInt64) (w w' : World) : Prop :=
  (observe env ctx amount w w').bind takeOfferInvariant = some ()

instance (env : Env) (ctx : TakeOffer) (amount : UInt64) (w w' : World) :
    Decidable (Accepts env ctx amount w w') := inferInstanceAs (Decidable (_ = _))

/-- What the harness takes for granted: none of the payment is burned, and a fee rounded down
leaves nothing that buys more. -/
def TakenForGranted (env : Env) (ctx : TakeOffer) (amount : UInt64) (w : World) : Prop :=
  ∃ offer rate, w.offers.lookup ctx.offerPda = some offer ∧ takeRate env ctx w = .ok rate ∧
    (w.ledger.mintAuthority ctx.tokenInMint = some Seeds.mintAuthority →
      netOf amount.toNat offer.feeBasisPoints.toNat = 0) ∧
    (maxBasisPoints ∣ amount.toNat * offer.feeBasisPoints.toNat ∨
      (netOf amount.toNat offer.feeBasisPoints.toNat + 1) * rate.num < 2 ^ 128 ∧
        netOf amount.toNat offer.feeBasisPoints.toNat * rate.num % rate.den + rate.num < rate.den)

section Take

variable {env : Env} {ctx : TakeOffer} {amount : UInt64} {approval : Option ApprovalMessage}
  {w w' : World} {offer : Offer} {s : State} {tokenIn tokenOut : MintAccount} {l : Ledger}
  {result : OfferProcessResult}

/-- All accounts the harness reads are there. -/
theorem observe_eq (hmints : ctx.tokenInMint ≠ ctx.tokenOutMint)
    (hc : TakeChecks env ctx amount approval w offer s tokenIn tokenOut l result)
    (hexact : TakeExact ctx amount result w w') :
    observe env ctx amount w w' = some
      ⟨offer, w.ledger.amount (ctx.tokenInAccount ctx.user.key),
        w'.ledger.amount (ctx.tokenInAccount ctx.user.key),
        w.ledger.accounts.lookup (ctx.tokenOutAccount ctx.user.key),
        w'.ledger.amount (ctx.tokenOutAccount ctx.user.key),
        w.ledger.amount (ctx.tokenInAccount ctx.boss),
        w'.ledger.amount (ctx.tokenInAccount ctx.boss), tokenIn.toMint, tokenOut.toMint, amount,
        env.now⟩ := by
  have hbefore : ∀ k, l.HasAccount (ctx.tokenInAccount k) →
      w.ledger.HasAccount (ctx.tokenInAccount k) := fun k ha =>
    ((hc.hasAccount_iff _).mp ha).resolve_left
      (TakeOffer.tokenInAccount_ne_tokenOutAccount hmints _ _)
  have huser := hbefore _ hc.has_userIn
  have hboss := hbefore _ hc.has_bossIn
  have huser' := (hexact.accounts _).mpr (.inr huser)
  have hboss' := (hexact.accounts _).mpr (.inr hboss)
  have hout' := (hexact.accounts (ctx.tokenOutAccount ctx.user.key)).mpr (.inl rfl)
  simp only [observe, hc.offer_stored, hc.tokenIn, hc.tokenOut, Ledger.lookup_of_hasAccount huser,
    Ledger.lookup_of_hasAccount hboss, Ledger.lookup_of_hasAccount huser',
    Ledger.lookup_of_hasAccount hboss', Ledger.lookup_of_hasAccount hout', Option.bind_eq_bind,
    Option.bind_some]

/-- One unit more of the payment converts to the same, or to more. -/
theorem floor_converts_iff {price net out : UInt64} {bps : UInt16} {inDec outDec : UInt8}
    (hbps : bps.toNat ≤ maxBasisPoints) (hnet : net.toNat = netOf amount.toNat bps.toNat)
    (h : calculateTokenOutAmount net price inDec outDec = .ok out) :
    calculateTokenOut (UInt64.ofNat (amount.toNat - amount.toNat * bps.toNat / maxBasisPoints))
        price inDec outDec = some out ↔
      maxBasisPoints ∣ amount.toNat * bps.toNat ∨
        (net.toNat + 1) * 10 ^ (outDec.toNat + priceDecimals) < 2 ^ 128 ∧
          net.toNat * 10 ^ (outDec.toNat + priceDecimals) % (price.toNat * 10 ^ inDec.toNat) +
            10 ^ (outDec.toNat + priceDecimals) < price.toNat * 10 ^ inDec.toNat := by
  obtain ⟨hprice, hin, hout, hnum, hresult⟩ := calculateTokenOutAmount_eq_ok.mp h
  have hden : 0 < price.toNat * 10 ^ inDec.toNat :=
    Nat.mul_pos hprice (Nat.pow_pos (Nat.succ_pos 9))
  have hkept : (UInt64.ofNat (amount.toNat - amount.toNat * bps.toNat / maxBasisPoints)).toNat =
      net.toNat + if maxBasisPoints ∣ amount.toNat * bps.toNat then 0 else 1 := by
    rw [hnet, netOf, ← sub_div_share maxBasisPoints_pos hbps]
    exact toNat_ofNat_of_lt ((Nat.sub_le _ _).trans_lt amount.toNat_lt)
  rw [calculateTokenOut_eq_some hprice hin hout, calculateTokenOutAmount_eq_ok, hkept, hresult]
  by_cases hdvd : maxBasisPoints ∣ amount.toNat * bps.toNat
  · rw [if_pos hdvd]
    exact iff_of_true ⟨hprice, hin, hout, hnum, rfl⟩ (.inl hdvd)
  · rw [if_neg hdvd, or_iff_right hdvd, ← succ_mul_div_eq_iff hden]
    constructor
    · intro hconverts
      exact ⟨hconverts.2.2.2.1, hconverts.2.2.2.2.symm⟩
    · intro hfits
      exact ⟨hprice, hin, hout, hfits.1, hfits.2.symm⟩

/-- The harness on a take from an offer whose fee is at most 100%. -/
theorem accepts_of_fee_le (hmints : ctx.tokenInMint ≠ ctx.tokenOutMint)
    (huser : ∀ s, w.state = some s → ctx.user ≠ s.boss)
    (hcapped : ∀ o, w.offers.lookup ctx.offerPda = some o → o.feeBasisPoints.toNat ≤ maxBasisPoints)
    (h : takeOffer env ctx amount approval w = .ok w') :
    Accepts env ctx amount w w' ↔ TakenForGranted env ctx amount w := by
  obtain ⟨offer, s, tokenIn, tokenOut, _, result, l', hc, hexec, rfl⟩ := takeOffer_eq_ok.mp h
  have hexact := (hc.takeFlow hexec).exact hmints (hc.user_ne_boss huser) hc.boss_ne_vault
  have hfee := hcapped offer hc.offer_stored
  have hpriced := hc.priced
  simp only [processOfferCore, currentPrice, bind_eq_ok, pure_eq_ok] at hpriced
  obtain ⟨_, _, _, _, price, ⟨v, hactive, hprice⟩, fees, hfees, out, hconvert, rfl⟩ := hpriced
  obtain ⟨_, hnet⟩ := (calculateFees_eq_ok hfee).mp hfees
  have hstep : stepPriceAt v env.now = .ok price := hprice
  have hcurrent : currentPrice env offer = .ok price := (bind_eq_ok _ _ _).mpr ⟨v, hactive, hprice⟩
  have hrate := takeRate_eq (World.loadOffer_eq_ok.mpr hc.offer_stored)
    (Ledger.loadMint_eq_ok.mpr ⟨hc.tokenIn, hc.tokenIn_key⟩)
    (Ledger.loadMint_eq_ok.mpr ⟨hc.tokenOut, hc.tokenOut_key⟩) hcurrent
  -- The boss receives the whole payment unless some of it is burned.
  have hboss : (w.setLedger l').ledger.amount (ctx.tokenInAccount ctx.boss) =
      w.ledger.amount (ctx.tokenInAccount ctx.boss) + amount.toNat ↔
        (w.ledger.mintAuthority ctx.tokenInMint = some Seeds.mintAuthority →
          netOf amount.toNat offer.feeBasisPoints.toNat = 0) := by
    have hsplit : fees.tokenInFeeAmount.toNat + fees.tokenInNetAmount.toNat = amount.toNat :=
      hexact.split
    rw [hexact.bossIn, ← hnet]
    split
    · next hm =>
      show _ + fees.tokenInFeeAmount.toNat = _ ↔ _
      rw [imp_iff_right hm]
      omega
    · next hm => exact iff_of_true rfl fun hm' => absurd hm' hm
  rw [Accepts, observe_eq hmints hc hexact, Option.bind_some]
  refine (takeOfferInvariant_iff hfee hexact.userIn hexact.userOut hactive hstep).trans ?_
  refine (and_congr hboss (floor_converts_iff hfee hnet hconvert)).trans ?_
  rw [hnet]
  constructor
  · intro hgranted
    exact ⟨offer, _, hc.offer_stored, hrate, hgranted⟩
  · intro hgranted
    obtain ⟨offer', rate, ho, hrate', hgranted⟩ := hgranted
    obtain rfl : offer = offer' := Option.some.inj (hc.offer_stored.symm.trans ho)
    obtain rfl := Except.ok.inj (hrate.symm.trans hrate')
    exact hgranted

end Take

end FuzzTest

/-- In every reachable state, the harness accepts a take that went through exactly if what it
takes for granted is so. Elsewhere it stops at a take that is correct. -/
theorem fuzz_accepts_iff (l : Ledger) (actions : List Action) (env : Env) (ctx : TakeOffer)
    (amount : UInt64) (approval : Option ApprovalMessage) (w' : World)
    (hmints : ctx.tokenInMint ≠ ctx.tokenOutMint)
    (huser : ∀ s, (run step (World.genesis l) actions).state = some s → ctx.user ≠ s.boss)
    (h : takeOffer env ctx amount approval (run step (World.genesis l) actions) = .ok w') :
    FuzzTest.Accepts env ctx amount (run step (World.genesis l) actions) w' ↔
      FuzzTest.TakenForGranted env ctx amount (run step (World.genesis l) actions) :=
  FuzzTest.accepts_of_fee_le hmints huser (fun _ ho => offerFee_le l actions ho) h

/-- With a fee of one basis point, Alice's take of 1000 units stops the harness. -/
theorem fuzz_accepts_iff_basis_point :
    let w := run step (World.genesis (Sample.ledger Sample.issuer))
      (Sample.market false ++
        [Sample.act (.updateOfferFee ⟨Sample.usdc, Sample.onyc, Sample.boss⟩ 1)])
    ∃ w', takeOffer (Sample.env 1000) Sample.aliceTakes.toTakeOffer 1000 none w = .ok w' ∧
      ¬ FuzzTest.Accepts (Sample.env 1000) Sample.aliceTakes.toTakeOffer 1000 w w' ∧
        ¬ FuzzTest.TakenForGranted (Sample.env 1000) Sample.aliceTakes.toTakeOffer 1000 w := by
  intro w
  obtain ⟨w', h, hstops⟩ := exists_ok_of_map
    (x := takeOffer (Sample.env 1000) Sample.aliceTakes.toTakeOffer 1000 none w)
    (f := fun w' =>
      decide (FuzzTest.Accepts (Sample.env 1000) Sample.aliceTakes.toTakeOffer 1000 w w'))
    (b := false) (by decide +kernel)
  refine ⟨w', h, of_decide_eq_false hstops, ?_⟩
  rw [← fuzz_accepts_iff (Sample.ledger Sample.issuer) _ (Sample.env 1000) _ 1000 none w'
    (by decide) (Sample.ne_boss (by decide +kernel) (by decide)) h]
  exact of_decide_eq_false hstops

end OnreApp.Program
