import OnreApp.Library.Search
import OnreApp.Utils.Approver
import OnreApp.Utils.TokenUtils

/-!
# Offers: search, price and approval

The three searches of the vector array, the step price of a vector, and what a take
computes from them.
-/
namespace OnreApp.Offers

open Library.Checked Library.Outcome Library.Search Program Tokens Utils

def secondsInYear : ℕ := 31536000
def aprScale : ℕ := 1000000

def verifyOfferApproval (env : Env) (offer : Offer) (approvalMessage : Option ApprovalMessage)
    (programId userPubkey approver1 approver2 : Pubkey) : Except Error Unit :=
  if offer.needsApproval then
    match approvalMessage with
    | some msg => verifyApprovalMessageGeneric env programId userPubkey approver1 approver2 msg
    | none => .error (.offerCore .approvalRequired)
  else pure ()

/-! ## The vector array -/

def startKey (v : OfferVector) : ℕ := v.startTime.toNat

def findActiveVectorAt (offer : Offer) (time : UInt64) : Except Error OfferVector :=
  okOr (maxByKey startKey
    (offer.slots.filter fun v => v.startTime ≠ 0 ∧ v.startTime ≤ time)) (.offerCore .noActiveVector)

def findPreviousVector (offer : Offer) (currentVectorStartTime : UInt64) : Option OfferVector :=
  maxByKey startKey
    (offer.slots.filter fun v => v.startTime ≠ 0 ∧ v.startTime < currentVectorStartTime)

def findNextVectorAfter (offer : Offer) (currentTime : UInt64) : Option OfferVector :=
  minByKey startKey (offer.slots.filter fun v => currentTime < v.startTime)

def findVectorIndexByStartTime (offer : Offer) (startTime : UInt64) : Option ℕ :=
  offer.slots.findIdx? fun v => v.startTime = startTime

/-! ## The price of a vector -/

def calculateVectorPrice (apr basePrice elapsedTime : UInt64) : Except Error UInt64 := do
  let factorDen ← okOr (checkedMul 128 aprScale secondsInYear) .panic
  let yPart ← okOr (checkedMul 128 apr.toNat elapsedTime.toNat) (.offerCore .overflowError)
  let factorNum ← okOr (checkedAdd 128 factorDen yPart) (.offerCore .overflowError)
  let scaled ← okOr (checkedMul 128 basePrice.toNat factorNum) (.offerCore .overflowError)
  let price := scaled / factorDen
  require (price < 2 ^ 64) (.offerCore .overflowError)
  pure (UInt64.ofNat price)

def calculateStepPriceAt (apr basePrice baseTime priceFixDuration time : UInt64) :
    Except Error UInt64 := do
  require (baseTime ≤ time) (.offerCore .noActiveVector)
  let elapsedSinceStart := time.toNat - baseTime.toNat
  -- A division by zero panics.
  require (priceFixDuration ≠ 0) .panic
  let currentStep := elapsedSinceStart / priceFixDuration.toNat
  let nextStep ← okOr (checkedAdd 64 currentStep 1) .panic
  let stepEndTime ← okOr (checkedMul 64 nextStep priceFixDuration.toNat)
    (.offerCore .overflowError)
  calculateVectorPrice apr basePrice (UInt64.ofNat stepEndTime)

/-- `calculate_step_price_at` of a vector's own fields. -/
def stepPriceAt (v : OfferVector) (time : UInt64) : Except Error UInt64 :=
  calculateStepPriceAt v.apr v.basePrice v.baseTime v.priceFixDuration time

def calculateCurrentStepPrice (env : Env) (apr basePrice baseTime priceFixDuration : UInt64) :
    Except Error UInt64 :=
  calculateStepPriceAt apr basePrice baseTime priceFixDuration env.now

/-- The active vector of the moment and its current price: how every priced instruction
starts. -/
def currentPrice (env : Env) (offer : Offer) : Except Error UInt64 := do
  let activeVector ← findActiveVectorAt offer env.now
  calculateCurrentStepPrice env activeVector.apr activeVector.basePrice activeVector.baseTime
    activeVector.priceFixDuration

structure OfferProcessResult where
  currentPrice : UInt64
  tokenInNetAmount : UInt64
  tokenInFeeAmount : UInt64
  tokenOutAmount : UInt64
  deriving DecidableEq

def processOfferCore (env : Env) (offer : Offer) (tokenInAmount : UInt64)
    (tokenInMint tokenOutMint : MintAccount) : Except Error OfferProcessResult := do
  require (offer.tokenInMint = tokenInMint.key) (.offerCore .invalidTokenInMint)
  require (offer.tokenOutMint = tokenOutMint.key) (.offerCore .invalidTokenOutMint)
  let currentPrice ← currentPrice env offer
  let feeAmounts ← calculateFees tokenInAmount offer.feeBasisPoints
  let tokenOutAmount ← calculateTokenOutAmount feeAmounts.tokenInNetAmount currentPrice
    tokenInMint.decimals tokenOutMint.decimals
  pure { currentPrice, tokenInNetAmount := feeAmounts.tokenInNetAmount,
         tokenInFeeAmount := feeAmounts.tokenInFeeAmount, tokenOutAmount }

theorem processOfferCore_total {env : Env} {offer : Offer} {amount : UInt64}
    {tokenIn tokenOut : MintAccount} {result : OfferProcessResult}
    (h : processOfferCore env offer amount tokenIn tokenOut = .ok result) :
    result.tokenInNetAmount.toNat + result.tokenInFeeAmount.toNat = amount.toNat := by
  simp only [processOfferCore, bind_eq_ok, pure_eq_ok] at h
  obtain ⟨_, _, _, _, _, _, fees, hfees, _, _, rfl⟩ := h
  exact calculateFees_total hfees

/-! ## Errors -/

section Errors

variable {e : Error} {env : Env} {offer : Offer} {v : OfferVector} {time : UInt64}

theorem calculateVectorPrice_avoids {apr basePrice elapsed : UInt64} (hp : .panic ≠ e)
    (ho : .offerCore .overflowError ≠ e) :
    Avoids e (calculateVectorPrice apr basePrice elapsed) := by
  refine avoids_bind (avoids_okOr _ hp) fun _ _ => ?_
  refine avoids_bind (avoids_okOr _ ho) fun _ _ => ?_
  refine avoids_bind (avoids_okOr _ ho) fun _ _ => ?_
  refine avoids_bind (avoids_okOr _ ho) fun _ _ => ?_
  exact avoids_bind (avoids_require _ ho) fun _ _ => avoids_pure _ _

/-- From its base time on, a vector has a price up to overflow. -/
theorem stepPriceAt_avoids (hp : .panic ≠ e) (ho : .offerCore .overflowError ≠ e)
    (hv : v.baseTime ≤ time ∨ .offerCore .noActiveVector ≠ e) : Avoids e (stepPriceAt v time) := by
  refine avoids_bind ?_ fun _ _ => ?_
  · rcases hv with hv | hv
    · intro he
      exact ((require_eq_error _ _ _).mp he).1 hv
    · exact avoids_require _ hv
  · refine avoids_bind (avoids_require _ hp) fun _ _ => ?_
    refine avoids_bind (avoids_okOr _ hp) fun _ _ => ?_
    exact avoids_bind (avoids_okOr _ ho) fun _ _ => calculateVectorPrice_avoids hp ho

theorem currentPrice_avoids (hp : .panic ≠ e) (ho : ∀ c, .offerCore c ≠ e) :
    Avoids e (currentPrice env offer) :=
  avoids_bind (avoids_okOr _ (ho _)) fun _ _ => stepPriceAt_avoids hp (ho _) (.inr (ho _))

theorem verifyOfferApproval_avoids {approvalMessage : Option ApprovalMessage}
    {programId userPubkey approver1 approver2 : Pubkey} (ho : .offerCore .approvalRequired ≠ e)
    (ha : ∀ c, .approver c ≠ e) (hp : .panic ≠ e) :
    Avoids e (verifyOfferApproval env offer approvalMessage programId userPubkey approver1
      approver2) := by
  unfold verifyOfferApproval
  split
  · split
    · exact verifyApprovalMessageGeneric_avoids ha hp
    · exact avoids_error ho
  · exact avoids_pure _ _

/-- Pricing a take fails with what pricing the offer fails with, or by itself. -/
theorem processOfferCore_avoids {amount : UInt64} {tokenIn tokenOut : MintAccount}
    (hprice : Avoids e (currentPrice env offer)) (hp : .panic ≠ e) (ht : ∀ c, .tokenUtils c ≠ e)
    (hi : .offerCore .invalidTokenInMint ≠ e) (ho : .offerCore .invalidTokenOutMint ≠ e) :
    Avoids e (processOfferCore env offer amount tokenIn tokenOut) := by
  refine avoids_bind (avoids_require _ hi) fun _ _ => ?_
  refine avoids_bind (avoids_require _ ho) fun _ _ => ?_
  refine avoids_bind hprice fun _ _ => ?_
  refine avoids_bind (calculateFees_avoids ht) fun _ _ => ?_
  exact avoids_bind (calculateTokenOutAmount_avoids hp ht) fun _ _ => avoids_pure _ _

end Errors

/-! ## What the searches find -/

/-- The vectors an offer stores: its non-empty slots. -/
def stored (offer : Offer) : Set OfferVector := {v | v ∈ offer.slots ∧ v.startTime ≠ 0}

theorem mem_stored {offer : Offer} {v : OfferVector} :
    v ∈ stored offer ↔ v ∈ offer.slots ∧ v.startTime ≠ 0 := Iff.rfl

theorem startKey_le {v : OfferVector} {t : UInt64} :
    startKey v ≤ t.toNat ↔ v.startTime ≤ t := UInt64.le_iff_toNat_le.symm

theorem startKey_lt {v : OfferVector} {t : UInt64} :
    startKey v < t.toNat ↔ v.startTime < t := UInt64.lt_iff_toNat_lt.symm

theorem lt_startKey {v : OfferVector} {t : UInt64} :
    t.toNat < startKey v ↔ t < v.startTime := UInt64.lt_iff_toNat_lt.symm

theorem startTime_eq {u v : OfferVector} (h : startKey u = startKey v) :
    u.startTime = v.startTime := UInt64.toNat_inj.mp h

section Searches

variable {offer : Offer} {t : UInt64}

theorem mem_active_slots (v : OfferVector) :
    v ∈ offer.slots.filter (fun v => v.startTime ≠ 0 ∧ v.startTime ≤ t) ↔
      v ∈ stored offer ∧ startKey v ≤ t.toNat := by
  simp only [List.mem_filter, decide_eq_true_eq, mem_stored, startKey_le, and_assoc]

theorem mem_previous_slots (v : OfferVector) :
    v ∈ offer.slots.filter (fun v => v.startTime ≠ 0 ∧ v.startTime < t) ↔
      v ∈ stored offer ∧ startKey v < t.toNat := by
  simp only [List.mem_filter, decide_eq_true_eq, mem_stored, startKey_lt, and_assoc]

theorem mem_next_slots (v : OfferVector) :
    v ∈ offer.slots.filter (fun v => t < v.startTime) ↔
      v ∈ stored offer ∧ t.toNat < startKey v := by
  have hne : t < v.startTime → v.startTime ≠ 0 := fun h h0 => by
    rw [h0, UInt64.lt_iff_toNat_lt] at h
    exact Nat.not_lt_zero _ h
  simp only [List.mem_filter, decide_eq_true_eq, mem_stored, lt_startKey]
  exact ⟨fun h => ⟨⟨h.1, hne h.2⟩, h.2⟩, fun h => ⟨h.1.1, h.2⟩⟩

theorem findActiveVectorAt_spec {v : OfferVector} (h : findActiveVectorAt offer t = .ok v) :
    v ∈ stored offer ∧ startKey v ≤ t.toNat ∧
      ∀ u ∈ stored offer, startKey u ≤ t.toNat → startKey u ≤ startKey v := by
  obtain ⟨hv, hmax⟩ := maxByKey_spec ((okOr_eq_ok _ _ _).mp h)
  obtain ⟨hs, ht⟩ := (mem_active_slots v).mp hv
  exact ⟨hs, ht, fun u hu hut => hmax u ((mem_active_slots u).mpr ⟨hu, hut⟩)⟩

/-- The search for the active vector has one way to fail. -/
theorem findActiveVectorAt_eq_error {e : Error} (h : findActiveVectorAt offer t = .error e) :
    e = .offerCore .noActiveVector ∧ ∀ u ∈ stored offer, ¬ startKey u ≤ t.toNat := by
  obtain ⟨hn, he⟩ := (okOr_eq_error _ _ _).mp h
  exact ⟨he.symm, (maxByKey_eq_none_iff (p := (· ≤ t.toNat)) mem_active_slots).mp hn⟩

end Searches

end OnreApp.Offers
