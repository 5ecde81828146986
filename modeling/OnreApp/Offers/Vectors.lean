import OnreApp.Offers.OfferUtils

/-!
# Editing the price vectors of an offer

The three instructions that edit an offer's ten slots. Each first checks the accounts,
which are the same for all three, and then rewrites the slots.
-/
namespace OnreApp.Offers

open Library.Checked Library.Outcome Library.Schedule Library.Search Program Tokens

/-- The accounts of an instruction by which the boss edits an offer. The offer's address is
derived from the two mints passed. -/
structure BossOfferAccounts where
  tokenInMint : Pubkey
  tokenOutMint : Pubkey
  boss : Signer

namespace BossOfferAccounts

def offerPda (ctx : BossOfferAccounts) : OfferPda := ⟨ctx.tokenInMint, ctx.tokenOutMint⟩

def load (ctx : BossOfferAccounts) (w : World) : Except Error Offer := do
  let offer ← w.loadOffer ctx.offerPda
  let tokenInMint ← w.ledger.loadMint ctx.tokenInMint
  require (tokenInMint.key = offer.tokenInMint) (.offerCore .invalidTokenInMint)
  let tokenOutMint ← w.ledger.loadMint ctx.tokenOutMint
  require (tokenOutMint.key = offer.tokenOutMint) (.offerCore .invalidTokenOutMint)
  let _ ← loadBossState w ctx.boss
  pure offer

end BossOfferAccounts

abbrev AddOfferVector := BossOfferAccounts
abbrev DeleteOfferVector := BossOfferAccounts
abbrev DeleteAllOfferVectors := BossOfferAccounts

/-! ## The edits -/

/-- Empty the slots that satisfy `p`. -/
def clearSlots (offer : Offer) (p : OfferVector → Bool) : Offer :=
  offer.mapSlots fun v => if p v then OfferVector.default else v

structure AddOfferVectorArgs where
  startTime : Option UInt64
  baseTime : UInt64
  basePrice : UInt64
  apr : UInt64
  priceFixDuration : UInt64
  deriving DecidableEq

/-- The vector the arguments describe at `now`. -/
def AddOfferVectorArgs.newVector (args : AddOfferVectorArgs) (now : UInt64) : OfferVector where
  startTime := args.startTime.getD (max now args.baseTime)
  baseTime := args.baseTime
  basePrice := args.basePrice
  apr := args.apr
  priceFixDuration := args.priceFixDuration

def validateInputs (startTime baseTime basePrice priceFixDuration currentTime : UInt64)
    (offer : Offer) : Except Error Unit := do
  require (currentTime ≤ startTime) (.addOfferVector .startTimeInPast)
  require (0 < baseTime) (.addOfferVector .zeroValue)
  require (0 < basePrice) (.addOfferVector .zeroValue)
  require (0 < priceFixDuration) (.addOfferVector .zeroValue)
  let existingStartTimes := (offer.slots.filter fun v => v.startTime ≠ 0).map (·.startTime)
  require (startTime ∉ existingStartTimes) (.addOfferVector .duplicateStartTime)
  match maxByKey UInt64.toNat existingStartTimes with
  | some latestStartTime =>
    require (latestStartTime < startTime) (.addOfferVector .invalidTimeRange)
  | none => pure ()

def cleanOldVectors (offer : Offer) (newVector : OfferVector) (currentTime : UInt64) :
    Except Error Offer :=
  let activeVector := if newVector.startTime = currentTime then .ok newVector
    else findActiveVectorAt offer currentTime
  match activeVector with
  | .error _ => .ok offer
  | .ok active => do
    -- `start_time - 1` panics on zero.
    require (active.startTime ≠ 0) .panic
    let prevVectorStartTime := match findActiveVectorAt offer (active.startTime - 1) with
      | .ok vector => vector.startTime
      | .error _ => 0
    pure (clearSlots offer fun v => v.startTime ≠ 0 ∧ v.startTime ≠ active.startTime ∧
      v.startTime ≠ prevVectorStartTime ∧ v.startTime < active.startTime)

def addVector (now : UInt64) (args : AddOfferVectorArgs) (offer : Offer) : Except Error Offer := do
  let newVector := args.newVector now
  validateInputs newVector.startTime args.baseTime args.basePrice args.priceFixDuration now offer
  let offer ← cleanOldVectors offer newVector now
  let emptySlotIndex ← okOr (findVectorIndexByStartTime offer 0) (.addOfferVector .tooManyVectors)
  pure (offer.setSlot emptySlotIndex newVector)

def deleteVector (now vectorStartTime : UInt64) (offer : Offer) : Except Error Offer := do
  require (now < vectorStartTime) (.deleteOfferVector .startTimeInPast)
  let vectorIndex ← okOr (findVectorIndexByStartTime offer vectorStartTime)
    (.deleteOfferVector .vectorNotFound)
  pure (offer.setSlot vectorIndex OfferVector.default)

def deleteAllVectors (offer : Offer) : Offer := clearSlots offer fun v => v.startTime ≠ 0

/-! ## The instructions -/

def addOfferVector (env : Env) (ctx : AddOfferVector) (args : AddOfferVectorArgs) (w : World) :
    Except Error World := do
  let offer ← ctx.load w
  let offer ← addVector env.now args offer
  pure (w.setOffer ctx.offerPda offer)

def deleteOfferVector (env : Env) (ctx : DeleteOfferVector) (vectorStartTime : UInt64)
    (w : World) : Except Error World := do
  let offer ← ctx.load w
  let offer ← deleteVector env.now vectorStartTime offer
  pure (w.setOffer ctx.offerPda offer)

def deleteAllOfferVectors (ctx : DeleteAllOfferVectors) (w : World) : Except Error World := do
  let offer ← ctx.load w
  pure (w.setOffer ctx.offerPda (deleteAllVectors offer))

/-! ## Errors -/

theorem BossOfferAccounts.load_avoids {ctx : BossOfferAccounts} {w : World} {e : Error}
    (ha : ∀ c, .anchor c ≠ e) (hi : .offerCore .invalidTokenInMint ≠ e)
    (ho : .offerCore .invalidTokenOutMint ≠ e) : Avoids e (ctx.load w) := by
  refine avoids_bind (avoids_okOr _ (ha _)) fun _ _ => ?_
  refine avoids_bind (Ledger.loadMint_avoids (ha _)) fun _ _ => ?_
  refine avoids_bind (avoids_require _ hi) fun _ _ => ?_
  refine avoids_bind (Ledger.loadMint_avoids (ha _)) fun _ _ => ?_
  refine avoids_bind (avoids_require _ ho) fun _ _ => ?_
  refine avoids_bind ?_ fun _ _ => avoids_pure _ _
  refine avoids_bind (avoids_okOr _ (ha _)) fun _ _ => ?_
  exact avoids_bind (avoids_require _ (ha _)) fun _ _ => avoids_pure _ _

/-- The checks of the arguments are made before a slot is sought. -/
theorem validateInputs_avoids {startTime baseTime basePrice duration now : UInt64} {offer : Offer}
    {e : Error} (h : ∀ c, c ≠ .tooManyVectors → .addOfferVector c ≠ e) :
    Avoids e (validateInputs startTime baseTime basePrice duration now offer) := by
  refine avoids_bind (avoids_require _ (h _ (by decide))) fun _ _ => ?_
  refine avoids_bind (avoids_require _ (h _ (by decide))) fun _ _ => ?_
  refine avoids_bind (avoids_require _ (h _ (by decide))) fun _ _ => ?_
  refine avoids_bind (avoids_require _ (h _ (by decide))) fun _ _ => ?_
  refine avoids_bind (avoids_require _ (h _ (by decide))) fun _ _ => ?_
  split
  · exact avoids_require _ (h _ (by decide))
  · exact avoids_pure _ _

/-! ## Slots -/

/-- No two non-empty slots start at the same time. -/
def DistinctStarts (offer : Offer) : Prop :=
  ∀ (i j : ℕ) (u v : OfferVector), offer.slots[i]? = some u → offer.slots[j]? = some v →
    u.startTime = v.startTime → u.startTime ≠ 0 → i = j

theorem DistinctStarts.injOn {offer : Offer} (h : DistinctStarts offer) :
    Set.InjOn startKey (stored offer) := by
  intro u hu v hv huv
  obtain ⟨i, hi⟩ := List.mem_iff_getElem?.mp hu.1
  obtain ⟨j, hj⟩ := List.mem_iff_getElem?.mp hv.1
  have hij := h i j u v hi hj (startTime_eq huv) hu.2
  rw [hij, hj] at hi
  exact (Option.some.inj hi).symm

/-- A non-empty slot of a cleared array was that slot before. -/
theorem getElem?_clearSlots {offer : Offer} {p : OfferVector → Bool} {i : ℕ} {v : OfferVector}
    (hv : v.startTime ≠ 0) :
    (clearSlots offer p).slots[i]? = some v ↔ offer.slots[i]? = some v ∧ p v = false := by
  rw [clearSlots, Offer.slots_mapSlots, List.getElem?_map, Option.map_eq_some_iff]
  constructor
  · rintro ⟨u, hu, rfl⟩
    split at hv
    · exact absurd rfl hv
    · next hp =>
      rw [if_neg hp]
      exact ⟨hu, Bool.eq_false_of_not_eq_true hp⟩
  · rintro ⟨hv, hp⟩
    exact ⟨v, hv, if_neg (Bool.eq_false_iff.mp hp)⟩

theorem mem_stored_clearSlots {offer : Offer} {p : OfferVector → Bool} {v : OfferVector} :
    v ∈ stored (clearSlots offer p) ↔ v ∈ stored offer ∧ p v = false := by
  simp only [mem_stored, List.mem_iff_getElem?]
  constructor
  · rintro ⟨⟨i, hi⟩, hv⟩
    obtain ⟨ho, hp⟩ := (getElem?_clearSlots hv).mp hi
    exact ⟨⟨⟨i, ho⟩, hv⟩, hp⟩
  · rintro ⟨⟨⟨i, hi⟩, hv⟩, hp⟩
    exact ⟨⟨i, (getElem?_clearSlots hv).mpr ⟨hi, hp⟩⟩, hv⟩

theorem DistinctStarts.clearSlots {offer : Offer} (h : DistinctStarts offer)
    (p : OfferVector → Bool) : DistinctStarts (clearSlots offer p) := by
  intro i j u v hi hj huv hu
  exact h i j u v ((getElem?_clearSlots hu).mp hi).1
    ((getElem?_clearSlots (huv ▸ hu)).mp hj).1 huv hu

theorem findVectorIndexByStartTime_spec {offer : Offer} {t : UInt64} {i : ℕ}
    (h : findVectorIndexByStartTime offer t = some i) :
    ∃ v, offer.slots[i]? = some v ∧ v.startTime = t := by
  obtain ⟨hi, hp, _⟩ := List.findIdx?_eq_some_iff_getElem.mp h
  exact ⟨offer.slots[i], List.getElem?_eq_getElem hi, of_decide_eq_true hp⟩

theorem getElem?_setSlot {offer : Offer} {i j : ℕ} {v old : OfferVector}
    (h : offer.slots[i]? = some old) :
    (offer.setSlot i v).slots[j]? = if i = j then some v else offer.slots[j]? := by
  rw [Offer.slots_setSlot, List.getElem?_set, if_pos (List.getElem?_eq_some_iff.mp h).1]

/-- Filling an empty slot adds the vector to the stored ones. -/
theorem stored_fill {offer : Offer} {i : ℕ} {v old : OfferVector}
    (h : offer.slots[i]? = some old) (he : old.startTime = 0) (hv : v.startTime ≠ 0) :
    stored (offer.setSlot i v) = insert v (stored offer) := by
  ext u
  simp only [Set.mem_insert_iff, mem_stored, List.mem_iff_getElem?, getElem?_setSlot h]
  constructor
  · rintro ⟨⟨j, hj⟩, hu⟩
    split at hj
    · exact .inl (Option.some.inj hj).symm
    · exact .inr ⟨⟨j, hj⟩, hu⟩
  · rintro (rfl | ⟨⟨j, hj⟩, hu⟩)
    · exact ⟨⟨i, if_pos rfl⟩, hv⟩
    · refine ⟨⟨j, ?_⟩, hu⟩
      rw [if_neg, hj]
      rintro rfl
      rw [h] at hj
      exact hu (Option.some.inj hj ▸ he)

/-- Writing a slot stores at most the vector written besides what was stored. -/
theorem stored_setSlot_subset {offer : Offer} {i : ℕ} {v : OfferVector} :
    stored (offer.setSlot i v) ⊆ insert v (stored offer) := by
  intro u hu
  rcases List.mem_or_eq_of_mem_set hu.1 with hmem | he
  · exact .inr ⟨hmem, hu.2⟩
  · exact .inl he

theorem DistinctStarts.fill {offer : Offer} (hd : DistinctStarts offer) {i : ℕ}
    {v old : OfferVector} (h : offer.slots[i]? = some old)
    (hnew : ∀ u ∈ stored offer, u.startTime ≠ v.startTime) :
    DistinctStarts (offer.setSlot i v) := by
  intro j k u w hj hk huw hu
  rw [getElem?_setSlot h] at hj hk
  have hold : ∀ {j : ℕ} {u : OfferVector}, offer.slots[j]? = some u → u.startTime ≠ 0 →
      u.startTime ≠ v.startTime :=
    fun hj hu => hnew _ ⟨List.mem_iff_getElem?.mpr ⟨_, hj⟩, hu⟩
  split at hj <;> split at hk
  · next hij hik => exact hij.symm.trans hik
  · exact absurd (huw.symm.trans (congrArg _ (Option.some.inj hj).symm)) (hold hk (huw ▸ hu))
  · exact absurd (huw.trans (congrArg _ (Option.some.inj hk).symm)) (hold hj hu)
  · exact hd j k u w hj hk huw hu

/-- Emptying the slot that starts at `t` removes exactly the vector that does. -/
theorem stored_empty {offer : Offer} (hd : DistinctStarts offer) {i : ℕ} {old : OfferVector}
    (h : offer.slots[i]? = some old) (ho : old.startTime ≠ 0) :
    stored (offer.setSlot i OfferVector.default) =
      {v ∈ stored offer | startKey v ≠ startKey old} := by
  ext u
  change _ ↔ u ∈ stored offer ∧ startKey u ≠ startKey old
  simp only [mem_stored, List.mem_iff_getElem?, getElem?_setSlot h]
  constructor
  · rintro ⟨⟨j, hj⟩, hu⟩
    split at hj
    · exact absurd (congrArg OfferVector.startTime (Option.some.inj hj)).symm hu
    · next hne =>
      refine ⟨⟨⟨j, hj⟩, hu⟩, fun hk => hne ?_⟩
      exact hd i j old u h hj (startTime_eq hk).symm ho
  · rintro ⟨⟨⟨j, hj⟩, hu⟩, hk⟩
    refine ⟨⟨j, ?_⟩, hu⟩
    rw [if_neg, hj]
    rintro rfl
    rw [h] at hj
    exact hk (congrArg startKey (Option.some.inj hj)).symm

theorem DistinctStarts.empty {offer : Offer} (hd : DistinctStarts offer) {i : ℕ}
    {old : OfferVector} (h : offer.slots[i]? = some old) :
    DistinctStarts (offer.setSlot i OfferVector.default) := by
  intro j k u w hj hk huw hu
  rw [getElem?_setSlot h] at hj hk
  split at hj
  · exact absurd (congrArg OfferVector.startTime (Option.some.inj hj)).symm hu
  · split at hk
    · exact absurd (huw.trans (congrArg OfferVector.startTime (Option.some.inj hk)).symm) hu
    · exact hd j k u w hj hk huw hu

/-! ## What an edit does to the stored vectors -/

theorem validateInputs_eq_ok {startTime baseTime basePrice duration now : UInt64} {offer : Offer}
    {u : Unit} : validateInputs startTime baseTime basePrice duration now offer = .ok u ↔
      now ≤ startTime ∧ 0 < baseTime ∧ 0 < basePrice ∧ 0 < duration ∧
        ∀ v ∈ stored offer, v.startTime < startTime := by
  have hmem : ∀ t, t ∈ (offer.slots.filter fun v => v.startTime ≠ 0).map (·.startTime) ↔
      ∃ v ∈ stored offer, v.startTime = t := fun t => by
    simp only [List.mem_map, List.mem_filter, decide_eq_true_eq, mem_stored]
  simp only [validateInputs, bind_eq_ok, require_eq_ok]
  generalize (offer.slots.filter fun v => v.startTime ≠ 0).map (·.startTime) = starts at hmem
  constructor
  · rintro ⟨_, hs, _, hb, _, hp, _, hd, _, _, hl⟩
    refine ⟨hs, hb, hp, hd, fun v hv => ?_⟩
    have hvs : v.startTime ∈ starts := (hmem _).mpr ⟨v, hv, rfl⟩
    split at hl
    · next latest hlatest =>
      have hle := (maxByKey_spec hlatest).2 _ hvs
      rw [require_eq_ok, UInt64.lt_iff_toNat_lt] at hl
      exact UInt64.lt_iff_toNat_lt.mpr (hle.trans_lt hl)
    · next hnone =>
      rw [maxByKey_eq_none.mp hnone] at hvs
      exact absurd hvs List.not_mem_nil
  · rintro ⟨hs, hb, hp, hd, hall⟩
    have hlt : ∀ t ∈ starts, t < startTime := fun t ht => by
      obtain ⟨v, hv, rfl⟩ := (hmem t).mp ht
      exact hall v hv
    refine ⟨⟨⟩, hs, ⟨⟩, hb, ⟨⟩, hp, ⟨⟩, hd, ⟨⟩, fun ht => UInt64.lt_irrefl _ (hlt _ ht), ?_⟩
    split
    · next latest hlatest =>
      rw [require_eq_ok]
      exact hlt latest (maxByKey_spec hlatest).1
    · rfl

/-- Cleaning empties some slots, or none. -/
theorem cleanOldVectors_cases {offer offer' : Offer} {newVector : OfferVector} {now : UInt64}
    (h : cleanOldVectors offer newVector now = .ok offer') :
    offer' = offer ∨ ∃ p, offer' = clearSlots offer p := by
  unfold cleanOldVectors at h
  generalize (if newVector.startTime = now then (.ok newVector : Except Error _)
    else findActiveVectorAt offer now) = active at h
  cases active with
  | error e => exact .inl (Except.ok.inj h).symm
  | ok a =>
    simp only [bind_eq_ok, pure_eq_ok] at h
    obtain ⟨_, _, rfl⟩ := h
    exact .inr ⟨_, rfl⟩

/-- Cleaning loses only what lies below two vectors that have started and are kept, the new
one counted. -/
theorem cleanOldVectors_spec {offer offer' : Offer} {newVector : OfferVector} {now : UInt64}
    (hd : DistinctStarts offer) (h : cleanOldVectors offer newVector now = .ok offer') :
    DistinctStarts offer' ∧ stored offer' ⊆ stored offer ∧
      Retains startKey (insert newVector (stored offer')) (insert newVector (stored offer))
        now.toNat := by
  unfold cleanOldVectors at h
  -- The active vector is the new one or a stored one, and it has started.
  have hactive : ∀ a, (if newVector.startTime = now then (.ok newVector : Except Error _)
      else findActiveVectorAt offer now) = .ok a →
      startKey a ≤ now.toNat ∧ (a = newVector ∨ a ∈ stored offer) := by
    intro a ha
    split at ha
    · next he =>
      rw [← Except.ok.inj ha]
      exact ⟨(congrArg UInt64.toNat he).le, .inl rfl⟩
    · obtain ⟨hs, ht, _⟩ := findActiveVectorAt_spec ha
      exact ⟨ht, .inr hs⟩
  dsimp only at h
  split at h
  · rw [← Except.ok.inj h]
    exact ⟨hd, fun _ hv => hv, .refl _ _⟩
  · next a ha =>
    obtain ⟨hanow, hamem⟩ := hactive a ha
    simp only [bind_eq_ok, require_eq_ok, pure_eq_ok] at h
    obtain ⟨_, ha0, rfl⟩ := h
    refine ⟨hd.clearSlots _, fun v hv => (mem_stored_clearSlots.mp hv).1, ?_⟩
    have hpred : (a.startTime - 1).toNat = startKey a - 1 := by
      rw [UInt64.toNat_sub_of_le _ _ (UInt64.le_iff_toNat_le.mpr _)]
      · rfl
      · exact Nat.one_le_iff_ne_zero.mpr fun h0 => ha0 (UInt64.toNat_inj.mp h0)
    -- A vector is kept unless it starts before the active one and is not its predecessor.
    have hkeep : ∀ (v : OfferVector) (prev : UInt64), v ∈ stored offer →
        (¬ v.startTime < a.startTime ∨ v.startTime = prev) →
        v ∈ stored (clearSlots offer fun v => v.startTime ≠ 0 ∧ v.startTime ≠ a.startTime ∧
          v.startTime ≠ prev ∧ v.startTime < a.startTime) := by
      intro v prev hv hor
      refine mem_stored_clearSlots.mpr ⟨hv, decide_eq_false ?_⟩
      rintro ⟨_, _, hp, hlt⟩
      exact hor.elim (absurd hlt) hp
    refine ⟨Set.insert_subset_insert fun v hv => (mem_stored_clearSlots.mp hv).1,
      fun x hx hn => ?_⟩
    obtain ⟨hxnew, hxkept⟩ := not_or.mp hn
    have hxs := hx.resolve_left hxnew
    split at hxkept
    · next p hprev =>
      obtain ⟨hps, hpt, hpmax⟩ := findActiveVectorAt_spec hprev
      rw [hpred] at hpt hpmax
      have hpkept := hkeep p p.startTime hps (.inr rfl)
      have hxlt : x.startTime < a.startTime := by
        by_contra hlt
        exact hxkept (hkeep x p.startTime hxs (.inl hlt))
      have hxp : x.startTime ≠ p.startTime := fun he => hxkept (hkeep x _ hxs (.inr he))
      have hxle := hpmax x hxs (by have := startKey_lt.mpr hxlt; exact Nat.le_pred_of_lt this)
      have hpa : startKey p < startKey a := by
        have : startKey a ≠ 0 := fun h0 => ha0 (UInt64.toNat_inj.mp h0)
        omega
      refine ⟨p, .inr hpkept, a, ?_, lt_of_le_of_ne hxle fun he => hxp (startTime_eq he),
        hpa, hanow⟩
      exact hamem.imp_right fun has => hkeep a _ has (.inl (UInt64.lt_irrefl _))
    · next hprev =>
      -- Nothing starts before the active vector, so nothing was lost.
      obtain ⟨_, hnone⟩ := findActiveVectorAt_eq_error hprev
      rw [hpred] at hnone
      refine absurd (hkeep x 0 hxs (.inl fun hlt => hnone x hxs ?_)) hxkept
      have := startKey_lt.mpr hlt
      exact Nat.le_pred_of_lt this

/-- An accepted vector starts after every stored one and not before `now`. -/
theorem addVector_spec {offer offer' : Offer} {now : UInt64} {args : AddOfferVectorArgs}
    (hd : DistinctStarts offer) (hnow : 0 < now.toNat) (h : addVector now args offer = .ok offer') :
    DistinctStarts offer' ∧ now.toNat ≤ startKey (args.newVector now) ∧
      (∀ v ∈ stored offer, startKey v < startKey (args.newVector now)) ∧
      0 < args.baseTime ∧ 0 < args.basePrice ∧ 0 < args.priceFixDuration ∧
      args.newVector now ∈ stored offer' ∧
      Retains startKey (stored offer') (insert (args.newVector now) (stored offer)) now.toNat := by
  simp only [addVector, bind_eq_ok, okOr_eq_ok, pure_eq_ok, validateInputs_eq_ok] at h
  obtain ⟨_, ⟨hstart, hbt, hbp, hdur, hlast⟩, cleaned, hclean, i, hi, rfl⟩ := h
  obtain ⟨hdc, hsub, hret⟩ := cleanOldVectors_spec hd hclean
  obtain ⟨old, hold, hempty⟩ := findVectorIndexByStartTime_spec hi
  have hle : now.toNat ≤ startKey (args.newVector now) := UInt64.le_iff_toNat_le.mp hstart
  have hne : (args.newVector now).startTime ≠ 0 := fun h0 => by
    rw [startKey, h0] at hle
    exact absurd hle (Nat.not_le.mpr hnow)
  rw [stored_fill hold hempty hne]
  refine ⟨hdc.fill hold fun u hu he => ?_, hle, fun v hv => startKey_lt.mpr (hlast v hv), hbt, hbp,
    hdur, .inl rfl, hret⟩
  exact absurd (hlast u (hsub hu)) (he ▸ UInt64.lt_irrefl _)

theorem deleteVector_spec {offer offer' : Offer} {now t : UInt64} (hd : DistinctStarts offer)
    (h : deleteVector now t offer = .ok offer') :
    DistinctStarts offer' ∧ now.toNat < t.toNat ∧
      stored offer' = {v ∈ stored offer | startKey v ≠ t.toNat} := by
  simp only [deleteVector, bind_eq_ok, require_eq_ok, okOr_eq_ok, pure_eq_ok] at h
  obtain ⟨_, hlt, i, hi, rfl⟩ := h
  have hlt' : now.toNat < t.toNat := UInt64.lt_iff_toNat_lt.mp hlt
  obtain ⟨old, hold, rfl⟩ := findVectorIndexByStartTime_spec hi
  have h0 : old.startTime ≠ 0 := fun h0 => by
    rw [h0] at hlt'
    exact Nat.not_lt_zero _ hlt'
  exact ⟨hd.empty hold, hlt', stored_empty hd hold h0⟩

theorem stored_deleteAllVectors (offer : Offer) : stored (deleteAllVectors offer) = ∅ := by
  refine Set.eq_empty_of_forall_notMem fun v hv => ?_
  obtain ⟨hs, hp⟩ := mem_stored_clearSlots.mp hv
  exact of_decide_eq_false hp hs.2

end OnreApp.Offers
