import OnreApp.Program.FuzzOracle
import OnreApp.Program.ViewAvailability

/-!
# The fuzz harness on a new vector

What the repository's fuzz harness expects of `add_offer_vector`, when it succeeds and when it
fails, and what an addition must be like for the harness to accept it.
-/
namespace OnreApp

/-! ## Error numbers -/

/-- Anchor's own numbers; an address in use is refused by the system program with 0. -/
def AnchorError.number : AnchorError → ℕ
  | .accountNotInitialized => 3012
  | .accountAlreadyInUse => 0
  | .accountDidNotSerialize => 3004
  | .constraintMut => 2000
  | .constraintHasOne => 2001
  | .constraintSeeds => 2006
  | .constraintClose => 2011
  | .constraintAssociated => 2009
  | .requireKeysEqViolated => 2502

/-- The number of an error of the program as a client sees it. Anchor numbers the codes of every
`#[error_code]` from 6000 on, each enumeration for itself, so errors of two of them share numbers;
a failed call carries a number of the token program's, and a panic none. -/
def Error.customCode : Error → Option ℕ
  | .offerCore code => some (6000 + code.ctorIdx)
  | .addOfferVector code => some (6000 + code.ctorIdx)
  | .deleteOfferVector code => some (6000 + code.ctorIdx)
  | .makeOffer code => some (6000 + code.ctorIdx)
  | .updateOfferFee code => some (6000 + code.ctorIdx)
  | .takeOffer code => some (6000 + code.ctorIdx)
  | .takeOfferPermissionless code => some (6000 + code.ctorIdx)
  | .tokenUtils code => some (6000 + code.ctorIdx)
  | .approver code => some (6000 + code.ctorIdx)
  | .redemptionCore code => some (6000 + code.ctorIdx)
  | .makeRedemptionOffer code => some (6000 + code.ctorIdx)
  | .createRedemptionRequest code => some (6000 + code.ctorIdx)
  | .fulfillRedemptionRequest code => some (6000 + code.ctorIdx)
  | .cancelRedemptionRequest code => some (6000 + code.ctorIdx)
  | .updateRedemptionOfferFee code => some (6000 + code.ctorIdx)
  | .acceptBoss code => some (6000 + code.ctorIdx)
  | .proposeBoss code => some (6000 + code.ctorIdx)
  | .addAdmin code => some (6000 + code.ctorIdx)
  | .removeAdmin code => some (6000 + code.ctorIdx)
  | .addApprover code => some (6000 + code.ctorIdx)
  | .removeApprover code => some (6000 + code.ctorIdx)
  | .setKillSwitch code => some (6000 + code.ctorIdx)
  | .setRedemptionAdmin code => some (6000 + code.ctorIdx)
  | .closeState code => some (6000 + code.ctorIdx)
  | .initializeState code => some (6000 + code.ctorIdx)
  | .initializePermissionless code => some (6000 + code.ctorIdx)
  | .mintTo code => some (6000 + code.ctorIdx)
  | .transferMintAuthorityToBoss code => some (6000 + code.ctorIdx)
  | .transferMintAuthorityToProgram code => some (6000 + code.ctorIdx)
  | .getAPY code => some (6000 + code.ctorIdx)
  | .getCirculatingSupply code => some (6000 + code.ctorIdx)
  | .getTVL code => some (6000 + code.ctorIdx)
  | .anchor code => some code.number
  | .tokenProgram | .panic => none

namespace Program

open Library.Checked Library.FiniteStore Library.Outcome Library.Run Library.Search Offers

namespace FuzzTest

/-! ## What the harness computes

Its copies of `find_active_vector_at` and `clean_old_vectors`, and its checks of an addition. -/

def findActiveVectorAt (offer : Offer) (time : UInt64) : Option OfferVector :=
  maxByKey startKey (offer.slots.filter fun v => v.startTime ≠ 0 ∧ v.startTime ≤ time)

def cleanOldVectors (offer : Offer) (newVector : OfferVector) (currentTime : UInt64) :
    Option Offer :=
  let activeVector := if newVector.startTime = currentTime then some newVector
    else findActiveVectorAt offer currentTime
  match activeVector with
  | none => some offer
  | some active => do
    let before ← checkedSub active.startTime.toNat 1
    let prevVectorStartTime := match findActiveVectorAt offer (UInt64.ofNat before) with
      | some vector => vector.startTime
      | none => 0
    some (clearSlots offer fun v => v.startTime ≠ 0 ∧ v.startTime ≠ active.startTime ∧
      v.startTime ≠ prevVectorStartTime ∧ v.startTime < active.startTime)

def addOfferVectorInvariant (offerAfter offerBefore : Offer) (startTime : Option UInt64)
    (baseTime basePrice apr priceFixDuration currentTime : UInt64) : Option Unit := do
  let newVector : OfferVector :=
    ⟨startTime.getD (max currentTime baseTime), baseTime, basePrice, apr, priceFixDuration⟩
  let cleaned ← cleanOldVectors offerBefore newVector currentTime
  let emptyIndex ← cleaned.slots.findIdx? fun v => v.startTime = 0
  guard (offerAfter.slots.length = 10)
  let vector ← offerAfter.slots[emptyIndex]?
  guard (vector.startTime = baseTime)
  guard (vector.baseTime = baseTime)
  guard (vector.basePrice = basePrice)
  guard (vector.apr = apr)
  guard (vector.priceFixDuration = priceFixDuration)

/-- The harness's `add_offer_vector` with the transaction's outcome. A failure has to be the code
6003 if the offer was full, and another if it was not. -/
def addOfferVector (k : OfferPda) (args : AddOfferVectorArgs) (currentTime : UInt64)
    (outcome : Except Error World) (w : World) : Option Unit := do
  let offerBefore ← w.offers.lookup k
  match outcome with
  | .ok w' =>
    let offerAfter ← w'.offers.lookup k
    addOfferVectorInvariant offerAfter offerBefore args.startTime args.baseTime args.basePrice
      args.apr args.priceFixDuration currentTime
  | .error e =>
    let hasEmptySlot := offerBefore.slots.any fun v => v.startTime = 0
    guard ((!hasEmptySlot) = decide (e.customCode = some 6003))

/-- The harness goes on after an attempt to add a vector. -/
def AcceptsAddition (env : Env) (ctx : AddOfferVector) (args : AddOfferVectorArgs) (w : World) :
    Prop :=
  addOfferVector ctx.offerPda args env.now (Offers.addOfferVector env ctx args w) w = some ()

instance (env : Env) (ctx : AddOfferVector) (args : AddOfferVectorArgs) (w : World) :
    Decidable (AcceptsAddition env ctx args w) := inferInstanceAs (Decidable (_ = _))

/-- No slot of the offer is empty. -/
def Full (offer : Offer) : Prop := ∀ v ∈ offer.slots, v.startTime ≠ 0

/-- The arguments pass the checks made before the start times are compared, and a vector with this
start time is there. -/
def StartTaken (now : UInt64) (args : AddOfferVectorArgs) (offer : Offer) : Prop :=
  now ≤ (args.newVector now).startTime ∧ 0 < args.baseTime ∧ 0 < args.basePrice ∧
    0 < args.priceFixDuration ∧ ∃ v ∈ stored offer, v.startTime = (args.newVector now).startTime

/-! ## Where it agrees with the program -/

section Additions

variable {offer offer' : Offer} {args : AddOfferVectorArgs} {newVector : OfferVector}
  {now : UInt64}

theorem findActiveVectorAt_eq (offer : Offer) (time : UInt64) :
    findActiveVectorAt offer time = (Offers.findActiveVectorAt offer time).toOption := by
  unfold findActiveVectorAt Offers.findActiveVectorAt
  cases maxByKey startKey _ <;> rfl

/-- What the program cleans, the harness cleans. -/
theorem cleanOldVectors_eq (h : Offers.cleanOldVectors offer newVector now = .ok offer') :
    cleanOldVectors offer newVector now = some offer' := by
  have hactive : (if newVector.startTime = now then some newVector
      else (Offers.findActiveVectorAt offer now).toOption) =
        (if newVector.startTime = now then (.ok newVector : Except Error _)
          else Offers.findActiveVectorAt offer now).toOption := by
    split <;> rfl
  unfold Offers.cleanOldVectors at h
  unfold cleanOldVectors
  simp only [findActiveVectorAt_eq, hactive]
  generalize (if newVector.startTime = now then (.ok newVector : Except Error _)
    else Offers.findActiveVectorAt offer now) = active at h ⊢
  cases active with
  | error e => exact congrArg some (Except.ok.inj h)
  | ok a =>
    simp only [bind_eq_ok, require_eq_ok, pure_eq_ok] at h
    obtain ⟨_, hne, rfl⟩ := h
    have hpos : 1 ≤ a.startTime.toNat :=
      Nat.one_le_iff_ne_zero.mpr fun h0 => hne (UInt64.toNat_inj.mp h0)
    have hpred : UInt64.ofNat (a.startTime.toNat - 1) = a.startTime - 1 := by
      have hone : (1 : UInt64) ≤ a.startTime := UInt64.le_iff_toNat_le.mpr hpos
      rw [← UInt64.toNat_inj, UInt64.toNat_sub_of_le _ _ hone]
      exact toNat_ofNat_of_lt ((Nat.sub_le _ _).trans_lt a.startTime.toNat_lt)
    simp only [Except.toOption, checkedSub_eq_some.mpr ⟨hpos, rfl⟩, Option.bind_eq_bind,
      Option.bind_some, hpred]
    cases Offers.findActiveVectorAt offer (a.startTime - 1) <;> rfl

/-- The harness on an addition that went through. -/
theorem addOfferVectorInvariant_iff (h : addVector now args offer = .ok offer') :
    addOfferVectorInvariant offer' offer args.startTime args.baseTime args.basePrice args.apr
        args.priceFixDuration now = some () ↔
      (args.newVector now).startTime = args.baseTime := by
  simp only [addVector, bind_eq_ok, okOr_eq_ok, pure_eq_ok] at h
  obtain ⟨_, _, cleaned, hclean, i, hi, rfl⟩ := h
  obtain ⟨old, hold, _⟩ := findVectorIndexByStartTime_spec hi
  have hwritten : (cleaned.setSlot i (args.newVector now)).slots[i]? =
      some (args.newVector now) := by
    rw [getElem?_setSlot hold, if_pos rfl]
  have hcleaned : cleanOldVectors offer ⟨args.startTime.getD (max now args.baseTime), args.baseTime,
      args.basePrice, args.apr, args.priceFixDuration⟩ now = some cleaned :=
    cleanOldVectors_eq hclean
  have hslot : (cleaned.slots.findIdx? fun v => v.startTime = 0) = some i := hi
  simp only [addOfferVectorInvariant, hcleaned, hslot, hwritten, Option.bind_eq_bind,
    Option.bind_some, Option.bind_eq_some_iff, Option.guard_eq_some']
  constructor
  · intro hchecks
    obtain ⟨_, _, _, hstart, _⟩ := hchecks
    exact hstart
  · intro hstart
    exact ⟨⟨⟩, Offer.length_slots _, ⟨⟩, hstart, ⟨⟩, rfl, ⟨⟩, rfl, ⟨⟩, rfl, rfl⟩

theorem mem_existingStartTimes {t : UInt64} :
    t ∈ (offer.slots.filter fun v => v.startTime ≠ 0).map (·.startTime) ↔
      ∃ v ∈ stored offer, v.startTime = t := by
  simp only [List.mem_map, List.mem_filter, decide_eq_true_eq, mem_stored]

/-- A failed check is about the start time being taken exactly if it is. -/
theorem validateInputs_eq_error {e : Error}
    (h : validateInputs (args.newVector now).startTime args.baseTime args.basePrice
      args.priceFixDuration now offer = .error e) :
    ∃ c, e = .addOfferVector c ∧ (c = .duplicateStartTime ↔ StartTaken now args offer) := by
  simp only [validateInputs, bind_eq_error, require_eq_error, require_eq_ok] at h
  rcases h with ⟨hpast, rfl⟩ | ⟨_, hstart, ⟨hzero, rfl⟩ | ⟨_, hbase, ⟨hzero, rfl⟩ | ⟨_, hprice,
    ⟨hzero, rfl⟩ | ⟨_, hduration, ⟨htaken, rfl⟩ | ⟨_, hfree, hlatest⟩⟩⟩⟩⟩
  · exact ⟨_, rfl, iff_of_false (by decide) fun ht => hpast ht.1⟩
  · exact ⟨_, rfl, iff_of_false (by decide) fun ht => hzero ht.2.1⟩
  · exact ⟨_, rfl, iff_of_false (by decide) fun ht => hzero ht.2.2.1⟩
  · exact ⟨_, rfl, iff_of_false (by decide) fun ht => hzero ht.2.2.2.1⟩
  · rw [not_not, mem_existingStartTimes] at htaken
    exact ⟨_, rfl, iff_of_true rfl ⟨hstart, hbase, hprice, hduration, htaken⟩⟩
  · split at hlatest
    · obtain ⟨_, rfl⟩ := (require_eq_error _ _ _).mp hlatest
      exact ⟨_, rfl, iff_of_false (by decide) fun ht =>
        hfree (mem_existingStartTimes.mpr ht.2.2.2.2)⟩
    · exact absurd hlatest (pure_ne_error _ _)

theorem cleanOldVectors_eq_error {e : Error}
    (h : Offers.cleanOldVectors offer newVector now = .error e) : e = .panic := by
  unfold Offers.cleanOldVectors at h
  dsimp only at h
  split at h
  · cases h
  · simp only [bind_eq_error, require_eq_error] at h
    rcases h with ⟨_, rfl⟩ | ⟨_, _, hp⟩
    · rfl
    · exact absurd hp (pure_ne_error _ _)

/-- Of the errors of an addition, the one about the start time has the number 6003. -/
theorem addVector_code_iff {e : Error} (h : addVector now args offer = .error e) :
    e.customCode = some 6003 ↔ StartTaken now args offer := by
  have hnumber : ∀ c, (Error.addOfferVector c).customCode = some 6003 ↔
      c = .duplicateStartTime := by
    intro c
    cases c <;> decide
  -- Past the checks the start time is free.
  have hfree : ∀ u, validateInputs (args.newVector now).startTime args.baseTime args.basePrice
      args.priceFixDuration now offer = .ok u → ¬ StartTaken now args offer := by
    intro u hv ht
    obtain ⟨_, _, _, _, v, hv', hsame⟩ := ht
    have hlt := (validateInputs_eq_ok.mp hv).2.2.2.2 v hv'
    rw [hsame] at hlt
    exact UInt64.lt_irrefl _ hlt
  simp only [addVector, bind_eq_error, okOr_eq_error] at h
  rcases h with hv | ⟨u, hv, hc | ⟨cleaned, _, ⟨_, rfl⟩ | ⟨_, _, hp⟩⟩⟩
  · obtain ⟨c, rfl, hc⟩ := validateInputs_eq_error hv
    exact (hnumber c).trans hc
  · rw [cleanOldVectors_eq_error hc]
    exact iff_of_false (by decide) (hfree u hv)
  · exact iff_of_false (by decide) (hfree u hv)
  · exact absurd hp (pure_ne_error _ _)

end Additions

end FuzzTest

/-- The harness accepts an addition that goes through exactly if the vector starts at its base
time, and one that fails exactly if the start time is taken where the offer is full, and is not
where it is not. So it stops at every offer out of slots: `TooManyVectors` is 6004. -/
theorem fuzz_accepts_addition_iff (env : Env) (ctx : AddOfferVector) (args : AddOfferVectorArgs)
    (w : World) (offer : Offer) (hload : ctx.load w = .ok offer) :
    FuzzTest.AcceptsAddition env ctx args w ↔
      (∀ w', addOfferVector env ctx args w = .ok w' →
        (args.newVector env.now).startTime = args.baseTime) ∧
      ∀ e, addOfferVector env ctx args w = .error e →
        (FuzzTest.Full offer ↔ FuzzTest.StartTaken env.now args offer) := by
  obtain ⟨hoffer, _⟩ := BossOfferAccounts.load_eq_ok hload
  have hadd : addOfferVector env ctx args w =
      (addVector env.now args offer).map (w.setOffer ctx.offerPda) := by
    rw [addOfferVector, hload]
    rfl
  unfold FuzzTest.AcceptsAddition FuzzTest.addOfferVector
  rw [hadd, hoffer]
  cases h : addVector env.now args offer with
  | ok offer' =>
    have hstored : (w.setOffer ctx.offerPda offer').offers.lookup ctx.offerPda = some offer' := by
      rw [World.setOffer, lookup_insert_eq, if_pos rfl]
    simp only [Option.bind_eq_bind, Option.bind_some, Except.map, hstored]
    rw [FuzzTest.addOfferVectorInvariant_iff h]
    constructor
    · intro hstart
      exact ⟨fun _ _ => hstart, fun _ he => by cases he⟩
    · intro haccepts
      exact haccepts.1 _ rfl
  | error e =>
    have hfull : (!offer.slots.any fun v => v.startTime = 0) = true ↔ FuzzTest.Full offer := by
      simp [FuzzTest.Full]
    simp only [Option.bind_eq_bind, Option.bind_some, Except.map, Option.guard_eq_some']
    rw [Bool.eq_iff_iff, hfull, decide_eq_true_iff, FuzzTest.addVector_code_iff h]
    constructor
    · intro hsame
      exact ⟨fun _ hok => (by cases hok), fun _ _ => hsame⟩
    · intro haccepts
      exact haccepts.2 _ rfl

/-- A second vector at the same moment is refused as a duplicate, and the harness stops at it: nine
slots are empty. -/
theorem fuzz_accepts_addition_iff_again :
    let w := run step (World.genesis (Sample.ledger Sample.issuer)) (Sample.growing 100000 86400)
    let ctx : AddOfferVector := ⟨Sample.usdc, Sample.onyc, Sample.boss⟩
    let args : AddOfferVectorArgs := ⟨none, 1000, 1000000000, 0, 86400⟩
    ¬ FuzzTest.AcceptsAddition (Sample.env 1000) ctx args w := by
  intro w ctx args
  obtain ⟨offer, hload, hslots⟩ := exists_ok_of_map (x := ctx.load w) (f := Offer.slots)
    (b := ⟨1000, 1000, 1000000000, 100000, 86400⟩ :: List.replicate 9 OfferVector.default)
    (by decide +kernel)
  have hfails : addOfferVector (Sample.env 1000) ctx args w =
      .error (.addOfferVector .duplicateStartTime) :=
    eq_error_of_map (f := fun _ => ()) (by decide +kernel)
  have htaken : FuzzTest.StartTaken 1000 args offer := by
    refine ⟨by decide, by decide, by decide, by decide, ⟨1000, 1000, 1000000000, 100000, 86400⟩,
      ⟨?_, by decide⟩, by decide⟩
    rw [hslots]
    exact List.mem_cons_self
  have hroom : ¬ FuzzTest.Full offer := by
    intro hfull
    rw [FuzzTest.Full, hslots] at hfull
    exact hfull OfferVector.default (by decide) rfl
  rw [fuzz_accepts_addition_iff (Sample.env 1000) ctx args w offer hload]
  intro haccepts
  exact hroom ((haccepts.2 _ hfails).mpr htaken)

end Program

end OnreApp
