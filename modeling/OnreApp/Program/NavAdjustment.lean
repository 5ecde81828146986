import Mathlib.Algebra.Order.Group.Abs
import OnreApp.Library.Signed
import OnreApp.Offers.PricedVectors
import OnreApp.Program.Effects
import OnreApp.Program.Genesis

/-!
# The NAV adjustment as a signed number

The difference of two prices is narrowed to 64 signed bits without a check. It is exact where
it is less than 2^63 in size; elsewhere it wraps, and a fall by exactly 2^63 panics.
-/
namespace OnreApp.Program

open Library.Outcome Library.Run Library.Search Library.Signed Offers Tokens

theorem allPriced_run (l : Ledger) (actions : List Action) {k : OfferPda} {offer : Offer}
    (hk : (run step (World.genesis l) actions).offers.lookup k = some offer) : AllPriced offer :=
  offers_invariant (C := fun _ _ => True) (Q := fun _ => AllPriced)
    (fun k o ho => absurd ho (World.genesis_offers l k o))
    (fun _ => allPriced_newOffer _ _ _ _ _) (fun _ _ _ h => h) (fun _ _ _ he h => h.edit he)
    (along_of_forall fun _ _ _ => trivial) k offer hk

/-! ## Narrowing a difference -/

/-- `x` does not panic, and a number it returns is `d`. -/
def Returns (x : Except Error Int64) (d : ℤ) : Prop :=
  x ≠ .error .panic ∧ ∀ a, x = .ok a → a.toInt = d

theorem returns_ok {a : Int64} {d : ℤ} : Returns (.ok a) d ↔ a.toInt = d := by
  constructor
  · intro h
    exact h.2 a rfl
  · intro h
    exact ⟨nofun, fun b hb => Except.ok.inj hb ▸ h⟩

theorem returns_toInt64_iff {x : UInt64} : Returns (.ok x.toInt64) x.toNat ↔ x.toNat < 2 ^ 63 :=
  returns_ok.trans toInt_toInt64_eq_iff

/-- The least number has no negation, and is not the one that is meant. -/
theorem returns_negateAsI64_iff {x : UInt64} :
    Returns (negateAsI64 x) (-x.toNat) ↔ x.toNat < 2 ^ 63 := by
  unfold negateAsI64
  by_cases hmin : x.toInt64 = Int64.minValue
  · have hsize := toInt64_eq_minValue_iff.mp hmin
    rw [require, if_neg (not_not.mpr hmin)]
    exact iff_of_false (fun h => h.1 rfl) (by omega)
  · rw [require, if_pos hmin]
    exact returns_ok.trans (toInt_neg_toInt64_eq_iff hmin)

theorem returns_priceAdjustment_iff {current previous : UInt64} :
    Returns (priceAdjustment current previous) (current.toNat - previous.toNat) ↔
      |(current.toNat - previous.toNat : ℤ)| < 2 ^ 63 := by
  unfold priceAdjustment
  by_cases hle : previous ≤ current
  · have hsub := UInt64.toNat_sub_of_le _ _ hle
    have hle' := UInt64.le_iff_toNat_le.mp hle
    have hrise : (current.toNat - previous.toNat : ℤ) = ((current - previous).toNat : ℕ) := by
      omega
    rw [if_pos hle, hrise, Nat.abs_cast]
    exact returns_toInt64_iff.trans (by norm_cast)
  · have hlt := UInt64.not_le.mp hle
    have hsub := UInt64.toNat_sub_of_le _ _ (UInt64.le_of_lt hlt)
    have hlt' := UInt64.lt_iff_toNat_lt.mp hlt
    have hfall : (current.toNat - previous.toNat : ℤ) = -((previous - current).toNat : ℕ) := by
      omega
    rw [if_neg hle, hfall, abs_neg, Nat.abs_cast]
    exact returns_negateAsI64_iff.trans (by norm_cast)

/-! ## The adjustment over the integers -/

/-- The price of the active vector at its start, less that of the vector before it at the same
time, if there is one; where both have a price. -/
def exactAdjustment (offer : Offer) (now : UInt64) : Option ℤ := do
  let active ← (findActiveVectorAt offer now).toOption
  let current ← priceAt active active.startTime
  match findPreviousVector offer active.startTime with
  | some previous => do
    let previousPrice ← priceAt previous active.startTime
    pure (current - previousPrice)
  | none => pure current

section View

variable {env : Env} {ctx : OfferView} {w : World} {p : Offer × MintAccount}

/-- The instruction fails without a panic where a price is missing. Elsewhere it narrows the
exact adjustment. -/
theorem getNavAdjustment_cases (env : Env) (hload : ctx.load w = .ok p)
    (hpriced : AllPriced p.1) :
    (exactAdjustment p.1 env.now = none ∧ ∃ e, e ≠ .panic ∧ getNavAdjustment env ctx w = .error e) ∨
      ∃ d x current previous, exactAdjustment p.1 env.now = some d ∧
        (Returns x d ↔ |d| < 2 ^ 63) ∧ getNavAdjustment env ctx w =
          x >>= fun adjustment => pure ⟨current, previous, adjustment, env.now⟩ := by
  simp only [getNavAdjustment, exactAdjustment, hload, ok_bind]
  cases hactive : findActiveVectorAt p.1 env.now with
  | error e =>
    rw [(findActiveVectorAt_eq_error hactive).1]
    exact .inl ⟨rfl, .offerCore .noActiveVector, by simp, rfl⟩
  | ok active =>
    have ha := hpriced active (findActiveVectorAt_spec hactive).1
    simp only [Except.toOption, Option.bind_eq_bind, Option.bind_some, ok_bind, ha.priceAt_eq]
    cases hcurrent : stepPriceAt active active.startTime with
    | error e => exact .inl ⟨rfl, e, fun he => ha.stepPriceAt_no_panic (he ▸ hcurrent), rfl⟩
    | ok current =>
      simp only [Option.map_some, Option.bind_some, ok_bind]
      cases hfind : findPreviousVector p.1 active.startTime with
      | none =>
        refine .inr ⟨_, .ok current.toInt64, current, none, rfl, ?_, rfl⟩
        rw [Nat.abs_cast]
        exact returns_toInt64_iff.trans (by norm_cast)
      | some previous =>
        have hprev := hpriced previous ((mem_previous_slots _).mp (maxByKey_spec hfind).1).1
        simp only [hprev.priceAt_eq]
        cases hprevious : stepPriceAt previous active.startTime with
        | error e =>
          exact .inl ⟨rfl, e, fun he => hprev.stepPriceAt_no_panic (he ▸ hprevious), rfl⟩
        | ok previousPrice =>
          exact .inr ⟨_, priceAdjustment current previousPrice, current, some previousPrice, rfl,
            returns_priceAdjustment_iff, rfl⟩

/-- Where there is an exact adjustment, the instruction is right if the narrowing is. -/
theorem getNavAdjustment_exact_iff {d : ℤ} {x : Except Error Int64} {current : UInt64}
    {previous : Option UInt64} (hload : ctx.load w = .ok p)
    (hd : exactAdjustment p.1 env.now = some d) (he : getNavAdjustment env ctx w =
      x >>= fun adjustment => pure ⟨current, previous, adjustment, env.now⟩) :
    (getNavAdjustment env ctx w ≠ .error .panic ∧ ∀ e, getNavAdjustment env ctx w = .ok e →
      ∃ p d, ctx.load w = .ok p ∧ exactAdjustment p.1 env.now = some d ∧ e.adjustment.toInt = d ∧
        (0 < e.adjustment ↔ 0 < d) ∧ (e.adjustment < 0 ↔ d < 0)) ↔ Returns x d := by
  rw [he]
  constructor
  · intro h
    refine ⟨fun hpanic => h.1 (by rw [hpanic]; rfl), fun a ha => ?_⟩
    obtain ⟨q, d', hq, hd', hexact, _⟩ := h.2 ⟨current, previous, a, env.now⟩ (by rw [ha]; rfl)
    obtain rfl : p = q := Except.ok.inj (hload.symm.trans hq)
    exact hexact.trans (Option.some.inj (hd'.symm.trans hd))
  · intro h
    constructor
    · intro he
      rcases (bind_eq_error _ _ _).mp he with hxe | ⟨_, _, hpure⟩
      · exact h.1 hxe
      · exact pure_ne_error _ _ hpure
    · intro e he
      obtain ⟨a, ha, hpure⟩ := (bind_eq_ok _ _ _).mp he
      have hvalue : a.toInt = d := h.2 a ha
      rw [← (pure_eq_ok _ _).mp hpure]
      refine ⟨p, d, hload, hd, hvalue, ?_, ?_⟩
      · rw [Int64.lt_iff_toInt_lt, hvalue, Int64.toInt_zero]
      · rw [Int64.lt_iff_toInt_lt, hvalue, Int64.toInt_zero]

end View

/-- On every reachable offer, at any time: the instruction does not panic, and what it returns
is the exact difference with its sign, exactly if that difference is less than 2^63 in size. -/
theorem nav_adjustment_exact_iff (l : Ledger) (actions : List Action) (env : Env)
    (ctx : OfferView) :
    let w := run step (World.genesis l) actions
    (getNavAdjustment env ctx w ≠ .error .panic ∧ ∀ e, getNavAdjustment env ctx w = .ok e →
      ∃ p d, ctx.load w = .ok p ∧ exactAdjustment p.1 env.now = some d ∧ e.adjustment.toInt = d ∧
        (0 < e.adjustment ↔ 0 < d) ∧ (e.adjustment < 0 ↔ d < 0)) ↔
      ∀ p d, ctx.load w = .ok p → exactAdjustment p.1 env.now = some d → |d| < 2 ^ 63 := by
  intro w
  cases hload : ctx.load w with
  | error e =>
    have he : getNavAdjustment env ctx w = .error e := by
      simp only [getNavAdjustment, hload, error_bind]
    have hpanic : e ≠ .panic := by
      intro h
      have havoids : Avoids .panic (ctx.load w) :=
        OfferView.load_avoids (fun _ => nofun) nofun nofun
      exact havoids (h ▸ hload)
    rw [he]
    exact iff_of_true ⟨fun h => hpanic (Except.error.inj h), nofun⟩ nofun
  | ok p =>
    have hpriced := allPriced_run l actions (OfferView.load_offer hload)
    rcases getNavAdjustment_cases env hload hpriced with
      ⟨hnone, e, hpanic, he⟩ | ⟨d, x, current, previous, hd, hx, he⟩
    · rw [he]
      refine iff_of_true ⟨fun h => hpanic (Except.error.inj h), nofun⟩ ?_
      intro q d hq hd
      rw [← Except.ok.inj hq, hnone] at hd
      cases hd
    · rw [← hload, (getNavAdjustment_exact_iff hload hd he).trans hx]
      constructor
      · intro h q d' hq hd'
        obtain rfl : p = q := Except.ok.inj (hload.symm.trans hq)
        rw [← Option.some.inj (hd.symm.trans hd')]
        exact h
      · intro h
        exact h p d hload hd

/-- An offer with a vector of each base price, started at 1000, 2000 and so on. -/
def Sample.repriced (basePrices : List UInt64) : List Action :=
  [act (.initializeState ⟨boss, some programDataAddress, onyc⟩),
    act (.makeOffer ⟨usdc, .token, onyc, boss⟩ 0 false true)] ++
  basePrices.zipIdx.map fun (basePrice, i) =>
    act (.addOfferVector ⟨usdc, onyc, boss⟩
      ⟨some (UInt64.ofNat (1000 * (i + 1))), 1000, basePrice, 0, 86400⟩)

/-- A first price of 2^63 is reported as -2^63, and a fall by 2^63 panics. -/
theorem nav_adjustment_wraps :
    let adjustment := fun basePrices => (getNavAdjustment (Sample.env 5000)
      ⟨Sample.usdc, Sample.onyc⟩ (run step (World.genesis (Sample.ledger Sample.issuer))
        (Sample.repriced basePrices))).map fun e => (e.currentPrice, e.previousPrice, e.adjustment)
    adjustment [9223372036854775808] = .ok (9223372036854775808, none, -9223372036854775808) ∧
      adjustment [9223372036854775809, 1] = .error .panic := by
  decide +kernel

end OnreApp.Program
