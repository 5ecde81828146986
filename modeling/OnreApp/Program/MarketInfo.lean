import OnreApp.Offers.MakeOffer

/-!
# Market views

Read-only instructions. Each returns what its event carries; the instruction's own result
is one of those fields.
-/
namespace OnreApp.Program

open Library.Checked Library.Outcome Offers Tokens

structure OfferView where
  tokenInMint : Pubkey
  tokenOutMint : Pubkey

def OfferView.offerPda (ctx : OfferView) : OfferPda := ⟨ctx.tokenInMint, ctx.tokenOutMint⟩

/-- The account checks the offer views share. -/
def OfferView.load (ctx : OfferView) (w : World) : Except Error (Offer × MintAccount) := do
  let offer ← w.loadOffer ctx.offerPda
  let tokenInMint ← w.ledger.loadMint ctx.tokenInMint
  require (tokenInMint.key = offer.tokenInMint) (.offerCore .invalidTokenInMint)
  let tokenOutMint ← w.ledger.loadMint ctx.tokenOutMint
  require (tokenOutMint.key = offer.tokenOutMint) (.offerCore .invalidTokenOutMint)
  pure (offer, tokenOutMint)

theorem OfferView.load_eq_ok {ctx : OfferView} {w : World} {offer : Offer}
    {tokenOut : MintAccount} : ctx.load w = .ok (offer, tokenOut) ↔
      w.offers.lookup ctx.offerPda = some offer ∧
        (∃ m, w.ledger.mints.lookup ctx.tokenInMint = some m) ∧
        ctx.tokenInMint = offer.tokenInMint ∧
        w.ledger.mints.lookup ctx.tokenOutMint = some tokenOut.toMint ∧
        tokenOut.key = ctx.tokenOutMint ∧ ctx.tokenOutMint = offer.tokenOutMint := by
  simp only [OfferView.load, bind_eq_ok, World.loadOffer_eq_ok, Ledger.loadMint_eq_ok,
    require_eq_ok, pure_eq_ok]
  constructor
  · rintro ⟨_, ho, tokenIn, ⟨hi, hik⟩, _, hio, _, ⟨hj, hjk⟩, _, hjo, heq⟩
    cases heq
    exact ⟨ho, ⟨_, hi⟩, hik.symm.trans hio, hj, hjk, hjk.symm.trans hjo⟩
  · rintro ⟨ho, ⟨m, hi⟩, hio, hj, hjk, hjo⟩
    exact ⟨offer, ho, ⟨m, ctx.tokenInMint⟩, ⟨hi, rfl⟩, ⟨⟩, hio, tokenOut, ⟨hj, hjk⟩, ⟨⟩,
      hjk.trans hjo, rfl⟩

theorem OfferView.load_offer {ctx : OfferView} {w : World} {p : Offer × MintAccount}
    (h : ctx.load w = .ok p) : w.offers.lookup ctx.offerPda = some p.1 :=
  (OfferView.load_eq_ok.mp h).1

theorem OfferView.load_avoids {ctx : OfferView} {w : World} {e : Error} (ha : ∀ c, .anchor c ≠ e)
    (hi : .offerCore .invalidTokenInMint ≠ e) (ho : .offerCore .invalidTokenOutMint ≠ e) :
    Avoids e (ctx.load w) := by
  refine avoids_bind (avoids_okOr _ (ha _)) fun _ _ => ?_
  refine avoids_bind (Ledger.loadMint_avoids (ha _)) fun _ _ => ?_
  refine avoids_bind (avoids_require _ hi) fun _ _ => ?_
  refine avoids_bind (Ledger.loadMint_avoids (ha _)) fun _ _ => ?_
  exact avoids_bind (avoids_require _ ho) fun _ _ => avoids_pure _ _

structure GetNAVEvent where
  currentPrice : UInt64
  timestamp : UInt64
  nextPriceChangeTimestamp : UInt64
  deriving DecidableEq

/-- When the current price interval of a vector ends. -/
def nextIntervalTimestamp (now : UInt64) (v : OfferVector) : Except Error ℕ := do
  let elapsedSinceBase := now.toNat - v.baseTime.toNat
  require (v.priceFixDuration ≠ 0) .panic
  let nextStep ← okOr (checkedAdd 64 (elapsedSinceBase / v.priceFixDuration.toNat) 1) .panic
  let intervalEnd ← okOr (checkedMul 64 nextStep v.priceFixDuration.toNat)
    (.offerCore .overflowError)
  okOr (checkedAdd 64 v.baseTime.toNat intervalEnd) (.offerCore .overflowError)

def getNav (env : Env) (ctx : OfferView) (w : World) : Except Error GetNAVEvent := do
  let (offer, _) ← ctx.load w
  let activeVector ← findActiveVectorAt offer env.now
  let currentPrice ← calculateCurrentStepPrice env activeVector.apr activeVector.basePrice
    activeVector.baseTime activeVector.priceFixDuration
  let nextInterval ← nextIntervalTimestamp env.now activeVector
  let nextPriceChangeTimestamp := match findNextVectorAfter offer env.now with
    | some vector => min (UInt64.ofNat nextInterval) vector.startTime
    | none => UInt64.ofNat nextInterval
  pure { currentPrice, timestamp := env.now, nextPriceChangeTimestamp }

/-! ## APY -/

def extScale : ℕ := 1000000
def intScale : ℕ := 1000000000000000000
def compoundings : ℕ := 365

/-- Round half up of `a * b / denom`. -/
def mulDivRound (a b denom : ℕ) : Except Error ℕ := do
  let prod ← okOr (checkedMul 128 a b) (.getAPY .overflow)
  let adj ← okOr (checkedAdd 128 prod (denom / 2)) (.getAPY .overflow)
  require (denom ≠ 0) (.getAPY .divByZero)
  pure (adj / denom)

/-- The loop of `pow_fixed`. The exponent halves on every turn, so the exponent itself is
fuel enough. -/
def powFixedLoop (scale : ℕ) : ℕ → ℕ → ℕ → ℕ → Except Error ℕ
  | 0, acc, _, _ => pure acc
  | fuel + 1, acc, base, exp =>
    if 0 < exp then do
      let acc ← if exp % 2 = 1 then mulDivRound acc base scale else pure acc
      let exp := exp / 2
      let base ← if 0 < exp then mulDivRound base base scale else pure base
      powFixedLoop scale fuel acc base exp
    else pure acc

def powFixed (base exp scale : ℕ) : Except Error ℕ := powFixedLoop scale exp scale base exp

/-- `(1 + apr/365)^365` in fixed point, the first half of `calculate_apy_from_apr`. -/
def compound (aprScaled : UInt64) : Except Error ℕ := do
  let num ← okOr (checkedMul 128 intScale aprScaled.toNat) (.getAPY .overflow)
  let den ← okOr (checkedMul 128 extScale compoundings) (.getAPY .overflow)
  let rounded ← okOr (checkedAdd 128 num (den / 2)) (.getAPY .overflow)
  let incr := rounded / den
  let base ← okOr (checkedAdd 128 intScale incr) (.getAPY .overflow)
  powFixed base compoundings intScale

def calculateApyFromApr (aprScaled : UInt64) : Except Error UInt64 := do
  let pow ← compound aprScaled
  let apyInt ← okOr (checkedSub pow intScale) (.getAPY .overflow)
  let apyScaled ← mulDivRound apyInt extScale intScale
  require (apyScaled < 2 ^ 64) (.getAPY .overflow)
  pure (UInt64.ofNat apyScaled)

structure GetAPYEvent where
  apy : UInt64
  apr : UInt64
  timestamp : UInt64
  deriving DecidableEq

def getApy (env : Env) (ctx : OfferView) (w : World) : Except Error GetAPYEvent := do
  let (offer, _) ← ctx.load w
  let activeVector ← findActiveVectorAt offer env.now
  let apy ← calculateApyFromApr activeVector.apr
  pure { apy, apr := activeVector.apr, timestamp := env.now }

/-! ## NAV adjustment -/

structure GetNavAdjustmentEvent where
  currentPrice : UInt64
  previousPrice : Option UInt64
  adjustment : Int64
  timestamp : UInt64
  deriving DecidableEq

/-- `-(x as i64)`, which panics on the least number. -/
def negateAsI64 (x : UInt64) : Except Error Int64 := do
  require (x.toInt64 ≠ Int64.minValue) .panic
  pure (-x.toInt64)

def priceAdjustment (currentPrice previousPrice : UInt64) : Except Error Int64 :=
  if previousPrice ≤ currentPrice then pure (currentPrice - previousPrice).toInt64
  else negateAsI64 (previousPrice - currentPrice)

def getNavAdjustment (env : Env) (ctx : OfferView) (w : World) :
    Except Error GetNavAdjustmentEvent := do
  let (offer, _) ← ctx.load w
  let activeVector ← findActiveVectorAt offer env.now
  let currentPrice ← stepPriceAt activeVector activeVector.startTime
  match findPreviousVector offer activeVector.startTime with
  | some previousVector => do
    let previousPrice ← stepPriceAt previousVector activeVector.startTime
    let adjustment ← priceAdjustment currentPrice previousPrice
    pure { currentPrice, previousPrice := some previousPrice, adjustment, timestamp := env.now }
  | none =>
    pure { currentPrice, previousPrice := none, adjustment := currentPrice.toInt64,
           timestamp := env.now }

/-! ## TVL and circulating supply -/

/-- `read_optional_ata_amount`: an address that is not a token account of the program
passed counts as zero. -/
def readOptionalAtaAmount (l : Ledger) (account : Ata) : ℕ := l.amount account

structure GetTVL extends OfferView where
  tokenOutProgram : TokenProgram

structure GetTVLEvent where
  tvl : UInt64
  currentPrice : UInt64
  tokenSupply : UInt64
  timestamp : UInt64
  deriving DecidableEq

/-- What `get_tvl` makes of the supply outside the vault and the price. -/
def tvlEvent (now : UInt64) (tokenSupply : ℕ) (currentPrice : UInt64) :
    Except Error GetTVLEvent := do
  let product ← okOr (checkedMul 128 tokenSupply currentPrice.toNat) (.getTVL .overflow)
  let tvl := product / 10 ^ priceDecimals
  require (tvl < 2 ^ 64) (.getTVL .overflow)
  pure { tvl := UInt64.ofNat tvl, currentPrice, tokenSupply := UInt64.ofNat tokenSupply,
         timestamp := now }

def getTvl (env : Env) (ctx : GetTVL) (w : World) : Except Error GetTVLEvent := do
  let (offer, tokenOutMint) ← ctx.load w
  let activeVector ← findActiveVectorAt offer env.now
  let currentPrice ← calculateCurrentStepPrice env activeVector.apr activeVector.basePrice
    activeVector.baseTime activeVector.priceFixDuration
  let vaultTokenOutAmount := readOptionalAtaAmount w.ledger
    (offerVault ctx.tokenOutMint ctx.tokenOutProgram)
  let tokenSupply ← okOr (checkedSub tokenOutMint.supply.toNat vaultTokenOutAmount) .panic
  tvlEvent env.now tokenSupply currentPrice

structure GetCirculatingSupply where
  onycMint : Pubkey
  tokenProgram : TokenProgram

structure GetCirculatingSupplyEvent where
  circulatingSupply : UInt64
  totalSupply : UInt64
  vaultAmount : UInt64
  timestamp : UInt64
  deriving DecidableEq

def getCirculatingSupply (env : Env) (ctx : GetCirculatingSupply) (w : World) :
    Except Error GetCirculatingSupplyEvent := do
  let onycMint ← w.ledger.loadMint ctx.onycMint
  let state ← w.loadState
  require (state.onycMint = ctx.onycMint) (.anchor .constraintHasOne)
  let vaultAmount := readOptionalAtaAmount w.ledger (offerVault state.onycMint ctx.tokenProgram)
  let circulatingSupply ← okOr (checkedSub onycMint.supply.toNat vaultAmount) .panic
  pure { circulatingSupply := UInt64.ofNat circulatingSupply, totalSupply := onycMint.supply,
         vaultAmount := UInt64.ofNat vaultAmount, timestamp := env.now }

end OnreApp.Program
