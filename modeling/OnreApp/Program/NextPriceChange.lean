import Mathlib.Order.Bounds.Basic
import OnreApp.Offers.StepPrice
import OnreApp.Program.Genesis
import OnreApp.Program.MarketInfo

/-!
# The announced next price change

`get_nav` announces when the price changes next. Until then the active vector and its price
are what they were, whenever they are read; at that time the price interval or the active
vector changes, and at no time before.
-/
namespace OnreApp.Program

open Library.Checked Library.Intervals Library.Outcome Library.Run Library.Search Offers

/-- The number of the price interval of `v` that `t` lies in. -/
def intervalNumber (v : OfferVector) (t : UInt64) : ℕ :=
  (t.toNat - v.baseTime.toNat) / v.priceFixDuration.toNat

/-- When the price interval of `v` that `t` lies in ends. -/
def intervalStop (v : OfferVector) (t : UInt64) : ℕ :=
  v.baseTime.toNat + intervalEnd v.priceFixDuration.toNat (t.toNat - v.baseTime.toNat)

/-- The start times of the vectors still to start at `now`. -/
def futureStarts (offer : Offer) (now : UInt64) : Set ℕ :=
  {n | ∃ u ∈ stored offer, now < u.startTime ∧ n = startKey u}

section Times

variable {offer : Offer} {v : OfferVector} {now t : UInt64}

theorem toNat_pos_of_ne_zero {x : UInt64} (h : x ≠ 0) : 0 < x.toNat :=
  Nat.pos_of_ne_zero fun h0 => h (UInt64.toNat_inj.mp h0)

/-- The absolute end of the interval is computed where it fits 64 bits. -/
theorem nextIntervalTimestamp_eq_ok {n : ℕ} : nextIntervalTimestamp now v = .ok n ↔
    v.priceFixDuration ≠ 0 ∧ intervalStop v now < 2 ^ 64 ∧ n = intervalStop v now := by
  simp only [nextIntervalTimestamp, bind_eq_ok, require_eq_ok, okOr_eq_ok, checkedAdd_eq_some,
    checkedMul_eq_some]
  constructor
  · intro h
    obtain ⟨_, hd, _, ⟨_, rfl⟩, _, ⟨_, rfl⟩, hstop, rfl⟩ := h
    exact ⟨hd, hstop, rfl⟩
  · intro h
    obtain ⟨hd, hstop, rfl⟩ := h
    have hend : intervalEnd v.priceFixDuration.toNat (now.toNat - v.baseTime.toNat) < 2 ^ 64 :=
      (Nat.le_add_left _ _).trans_lt hstop
    refine ⟨⟨⟩, hd, _, ⟨?_, rfl⟩, _, ⟨hend, rfl⟩, hstop, rfl⟩
    exact (Nat.le_mul_of_pos_right _ (toNat_pos_of_ne_zero hd)).trans_lt hend

theorem lt_intervalStop (hd : v.priceFixDuration ≠ 0) (hb : v.baseTime ≤ now) :
    now.toNat < intervalStop v now := by
  have hlt := lt_intervalEnd (toNat_pos_of_ne_zero hd) (now.toNat - v.baseTime.toNat)
  have hb' := UInt64.le_iff_toNat_le.mp hb
  rw [intervalStop]
  omega

/-- The interval that `now` lies in lasts until its stop. -/
theorem intervalNumber_eq_iff (hd : v.priceFixDuration ≠ 0) (hb : v.baseTime ≤ now)
    (ht : now ≤ t) : intervalNumber v t = intervalNumber v now ↔ t.toNat < intervalStop v now := by
  have hb' := UInt64.le_iff_toNat_le.mp hb
  have ht' := UInt64.le_iff_toNat_le.mp ht
  rw [intervalNumber, intervalNumber, div_eq_iff_lt_intervalEnd (toNat_pos_of_ne_zero hd)
    (Nat.sub_le_sub_right ht' _), intervalStop]
  omega

/-- The search for the active vector only sees which vectors have started. -/
theorem findActiveVectorAt_congr (h : ∀ u ∈ stored offer, u.startTime ≤ t ↔ u.startTime ≤ now) :
    findActiveVectorAt offer t = findActiveVectorAt offer now := by
  have hfilter : offer.slots.filter (fun u => u.startTime ≠ 0 ∧ u.startTime ≤ t) =
      offer.slots.filter fun u => u.startTime ≠ 0 ∧ u.startTime ≤ now := by
    apply List.filter_congr
    intro u hu
    rw [decide_eq_decide]
    exact and_congr_right fun h0 => h u ⟨hu, h0⟩
  rw [findActiveVectorAt, findActiveVectorAt, hfilter]

/-- The active vector stays active until another one starts, and no longer. -/
theorem findActiveVectorAt_eq_iff (hv : findActiveVectorAt offer now = .ok v) (ht : now ≤ t) :
    findActiveVectorAt offer t = .ok v ↔ ∀ n ∈ futureStarts offer now, t.toNat < n := by
  constructor
  · intro h n hn
    obtain ⟨u, hu, hlater, rfl⟩ := hn
    obtain ⟨_, hvnow, _⟩ := findActiveVectorAt_spec hv
    obtain ⟨_, _, hmax⟩ := findActiveVectorAt_spec h
    by_contra hnot
    have hle := hmax u hu (Nat.not_lt.mp hnot)
    have hlt := lt_startKey.mpr hlater
    omega
  · intro h
    rw [← hv]
    apply findActiveVectorAt_congr
    intro u hu
    constructor
    · intro hut
      by_contra hnot
      have hlt := h (startKey u) ⟨u, hu, UInt64.not_le.mp hnot, rfl⟩
      exact absurd (startKey_le.mpr hut) (Nat.not_le.mpr hlt)
    · intro hunow
      exact UInt64.le_trans hunow ht

/-- The next vector has the least start time to come. -/
theorem findNextVectorAfter_isLeast {u : OfferVector} (h : findNextVectorAfter offer now = some u) :
    IsLeast (futureStarts offer now) (startKey u) := by
  obtain ⟨hmem, hmin⟩ := minByKey_spec h
  obtain ⟨hs, hlt⟩ := (mem_next_slots u).mp hmem
  constructor
  · exact ⟨u, hs, lt_startKey.mp hlt, rfl⟩
  · intro n hn
    obtain ⟨x, hx, hxlt, rfl⟩ := hn
    exact hmin x ((mem_next_slots x).mpr ⟨hx, lt_startKey.mpr hxlt⟩)

theorem findNextVectorAfter_eq_none (h : findNextVectorAfter offer now = none) :
    futureStarts offer now = ∅ := by
  refine Set.eq_empty_of_forall_notMem fun n hn => ?_
  obtain ⟨x, hx, hxlt, rfl⟩ := hn
  have hmem := (mem_next_slots x).mpr ⟨hx, lt_startKey.mpr hxlt⟩
  rw [minByKey_eq_none.mp h] at hmem
  exact absurd hmem List.not_mem_nil

end Times

/-! ## The view -/

/-- The earlier of the end of the interval and the next start. -/
def nextChange (offer : Offer) (now : UInt64) (v : OfferVector) : UInt64 :=
  match findNextVectorAfter offer now with
  | some vector => min (UInt64.ofNat (intervalStop v now)) vector.startTime
  | none => UInt64.ofNat (intervalStop v now)

/-- What an answer of `get_nav` rests on. -/
theorem getNav_eq_ok {env : Env} {ctx : OfferView} {w : World} {e : GetNAVEvent} :
    getNav env ctx w = .ok e ↔
      ∃ p v, ctx.load w = .ok p ∧ findActiveVectorAt p.1 env.now = .ok v ∧
        stepPriceAt v env.now = .ok e.currentPrice ∧ v.priceFixDuration ≠ 0 ∧
        intervalStop v env.now < 2 ^ 64 ∧ e.timestamp = env.now ∧
        e.nextPriceChangeTimestamp = nextChange p.1 env.now v := by
  simp only [getNav, bind_eq_ok, nextIntervalTimestamp_eq_ok, pure_eq_ok]
  constructor
  · intro h
    obtain ⟨p, hp, v, hv, price, hprice, _, ⟨hd, hstop, rfl⟩, rfl⟩ := h
    exact ⟨p, v, hp, hv, hprice, hd, hstop, rfl, rfl⟩
  · intro h
    obtain ⟨p, v, hp, hv, hprice, hd, hstop, ht, hn⟩ := h
    obtain ⟨price, timestamp, next⟩ := e
    obtain rfl : timestamp = env.now := ht
    obtain rfl : next = nextChange p.1 env.now v := hn
    exact ⟨p, hp, v, hv, price, hprice, _, ⟨hd, hstop, rfl⟩, rfl⟩

theorem toNat_min (x y : UInt64) : (min x y).toNat = min x.toNat y.toNat := by
  show (if x ≤ y then x else y).toNat = _
  by_cases h : x ≤ y
  · rw [if_pos h, Nat.min_eq_left (UInt64.le_iff_toNat_le.mp h)]
  · have hlt := UInt64.lt_iff_toNat_lt.mp (UInt64.not_le.mp h)
    rw [if_neg h, Nat.min_eq_right hlt.le]

/-- The announced time is the least of the times named. -/
theorem nextChange_isLeast {offer : Offer} {now : UInt64} {v : OfferVector}
    (hstop : intervalStop v now < 2 ^ 64) :
    IsLeast (insert (intervalStop v now) (futureStarts offer now))
      (nextChange offer now v).toNat := by
  have hfit := toNat_ofNat_of_lt hstop
  unfold nextChange
  cases h : findNextVectorAfter offer now with
  | none =>
    rw [findNextVectorAfter_eq_none h]
    simp only [hfit]
    exact ⟨.inl rfl, fun n hn => (hn.resolve_right (Set.notMem_empty n)).ge⟩
  | some u =>
    have hmin : (min (UInt64.ofNat (intervalStop v now)) u.startTime).toNat =
        min (intervalStop v now) (startKey u) := by
      rw [toNat_min, hfit, startKey]
    simp only [hmin]
    exact (findNextVectorAfter_isLeast h).insert _

/-- Something of the price changes at `t`: the active vector or its interval. -/
def PriceChanges (offer : Offer) (v : OfferVector) (now t : UInt64) : Prop :=
  findActiveVectorAt offer t ≠ .ok v ∨ intervalNumber v t ≠ intervalNumber v now

/-- Nothing changes at a time before both the end of the interval and the next start. -/
theorem not_priceChanges_iff {offer : Offer} {v : OfferVector} {now t : UInt64}
    (hv : findActiveVectorAt offer now = .ok v) (hd : v.priceFixDuration ≠ 0)
    (hb : v.baseTime ≤ now) (ht : now ≤ t) : ¬ PriceChanges offer v now t ↔
      ∀ n ∈ insert (intervalStop v now) (futureStarts offer now), t.toNat < n := by
  rw [PriceChanges, not_or, not_not, not_not, findActiveVectorAt_eq_iff hv ht,
    intervalNumber_eq_iff hd hb ht, Set.forall_mem_insert]
  exact and_comm

/-- An answer of `get_nav` announces a time after now. Before it, as long as no instruction
edits the vectors, the active vector and the price stay; it is the earlier of the end of the
interval and the next start; and it is the first time at which anything changes. -/
theorem next_price_change_exact (env : Env) (ctx : OfferView) (w : World) (e : GetNAVEvent)
    (h : getNav env ctx w = .ok e) :
    ∃ offer v, w.offers.lookup ctx.offerPda = some offer ∧
      findActiveVectorAt offer env.now = .ok v ∧ env.now < e.nextPriceChangeTimestamp ∧
      (∀ (offer' : Offer) (t : UInt64), offer'.vectors = offer.vectors → env.now ≤ t →
        t < e.nextPriceChangeTimestamp →
        findActiveVectorAt offer' t = .ok v ∧ stepPriceAt v t = .ok e.currentPrice) ∧
      IsLeast (insert (intervalStop v env.now) (futureStarts offer env.now))
        e.nextPriceChangeTimestamp.toNat ∧
      IsLeast {t | env.now ≤ t ∧ PriceChanges offer v env.now t} e.nextPriceChangeTimestamp := by
  obtain ⟨⟨offer, mint⟩, v, hp, hv, hprice, hd, hstop, -, hn⟩ := getNav_eq_ok.mp h
  have hoffer : w.offers.lookup ctx.offerPda = some offer := OfferView.load_offer hp
  have hb : v.baseTime ≤ env.now := by
    simp only [stepPriceAt, calculateStepPriceAt, bind_eq_ok, require_eq_ok] at hprice
    obtain ⟨_, hb, _⟩ := hprice
    exact hb
  rw [hn]
  have hleast : IsLeast (insert (intervalStop v env.now) (futureStarts offer env.now))
      (nextChange offer env.now v).toNat := nextChange_isLeast hstop
  -- A time before the announced one is before everything that is still to happen.
  have hbefore : ∀ {t : UInt64}, t < nextChange offer env.now v →
      ∀ n ∈ insert (intervalStop v env.now) (futureStarts offer env.now), t.toNat < n := by
    intro t ht n hn
    exact (UInt64.lt_iff_toNat_lt.mp ht).trans_le (hleast.2 hn)
  have hlater : env.now < nextChange offer env.now v := by
    rw [UInt64.lt_iff_toNat_lt]
    rcases hleast.1 with he | ⟨u, _, hlt, he⟩
    · rw [he]
      exact lt_intervalStop hd hb
    · rw [he]
      exact lt_startKey.mpr hlt
  refine ⟨offer, v, hoffer, hv, hlater, ?_, hleast, ⟨⟨UInt64.le_of_lt hlater, ?_⟩, ?_⟩⟩
  · intro offer' t hsame ht hlt
    have hstay := (not_priceChanges_iff hv hd hb ht).mpr (hbefore hlt)
    obtain ⟨hactive, hnumber⟩ := not_or.mp hstay
    constructor
    · rw [← not_not.mp hactive, findActiveVectorAt, findActiveVectorAt, Offer.slots, Offer.slots,
        hsame]
    · rw [← hprice]
      exact calculateStepPriceAt_congr (UInt64.le_trans hb ht) hb (not_not.mp hnumber)
  · by_contra hnot
    have hafter := (not_priceChanges_iff hv hd hb (UInt64.le_of_lt hlater)).mp hnot _ hleast.1
    exact absurd hafter (lt_irrefl _)
  · intro t ht
    obtain ⟨hnow, hchange⟩ := ht
    by_contra hnot
    exact (not_priceChanges_iff hv hd hb hnow).mpr (hbefore (UInt64.not_le.mp hnot)) hchange

/-- A vector in daily steps from 1000 on, another to start at 5000: at 2000 the start of the
second is announced, not the end of the day. -/
theorem next_price_change_exact_sample :
    let w := run step (World.genesis (Sample.ledger Sample.issuer)) (Sample.market false ++
      [Sample.act (.addOfferVector ⟨Sample.usdc, Sample.onyc, Sample.boss⟩
        ⟨some 5000, 5000, 1000000000, 0, 86400⟩)])
    ∃ e, getNav (Sample.env 2000) ⟨Sample.usdc, Sample.onyc⟩ w = .ok e ∧
      e.nextPriceChangeTimestamp = 5000 ∧ (2000 : UInt64) < e.nextPriceChangeTimestamp := by
  intro w
  obtain ⟨e, he, hnext⟩ : ∃ e, getNav (Sample.env 2000) ⟨Sample.usdc, Sample.onyc⟩ w = .ok e ∧
      e.nextPriceChangeTimestamp = 5000 := exists_ok_of_map (by decide +kernel)
  obtain ⟨_, _, _, _, hlater, _⟩ := next_price_change_exact _ _ _ _ he
  exact ⟨e, he, hnext, hlater⟩

end OnreApp.Program
