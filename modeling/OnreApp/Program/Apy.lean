import OnreApp.Library.Ordered
import OnreApp.Program.MarketInfo

/-!
# Where the yield is computed

The compounding runs in 128-bit fixed point. Every step of it keeps the order of its inputs,
so the rates whose yield is computed are all those up to one greatest rate; above it, the only
failure is the overflow.
-/
namespace OnreApp.Program

open Library.Checked Library.Ordered Library.Outcome

/-! ## One turn of the loop -/

/-- A multiplication of the loop, made where it is due. -/
def mulDivRoundIf (due : Prop) [Decidable due] (x y scale : ℕ) : Except Error ℕ :=
  if due then mulDivRound x y scale else pure x

theorem powFixedLoop_succ (scale fuel acc base exp : ℕ) :
    powFixedLoop scale (fuel + 1) acc base exp =
      if 0 < exp then
        mulDivRoundIf (exp % 2 = 1) acc base scale >>= fun acc =>
          mulDivRoundIf (0 < exp / 2) base base scale >>= fun base =>
            powFixedLoop scale fuel acc base (exp / 2)
      else pure acc := by
  rw [powFixedLoop]
  unfold mulDivRoundIf
  by_cases hodd : exp % 2 = 1 <;> by_cases hrest : 0 < exp / 2 <;>
    simp only [hodd, hrest, if_true, if_false]

/-- What the turns of the loop keep holds of its result, at the end of the exponent. -/
theorem powFixedLoop_induction {scale : ℕ} {P : ℕ → ℕ → ℕ → Prop}
    (turn : ∀ {acc base exp acc' base'}, P acc base exp →
      mulDivRoundIf (exp % 2 = 1) acc base scale = .ok acc' →
      mulDivRoundIf (0 < exp / 2) base base scale = .ok base' → P acc' base' (exp / 2))
    (fuel : ℕ) {acc base exp r : ℕ} (hfuel : exp ≤ fuel) (hinit : P acc base exp)
    (h : powFixedLoop scale fuel acc base exp = .ok r) : ∃ base', P r base' 0 := by
  induction fuel generalizing acc base exp with
  | zero =>
    obtain rfl := Nat.le_zero.mp hfuel
    exact ⟨base, (pure_eq_ok _ _).mp h ▸ hinit⟩
  | succ fuel ih =>
    rw [powFixedLoop_succ] at h
    by_cases hexp : 0 < exp
    · simp only [if_pos hexp, bind_eq_ok] at h
      obtain ⟨acc', hacc, base', hbase, hrest⟩ := h
      exact ih (by omega) (turn hinit hacc hbase) hrest
    · obtain rfl := Nat.eq_zero_of_not_pos hexp
      rw [if_neg hexp, pure_eq_ok] at h
      exact ⟨base, h ▸ hinit⟩

/-! ## Order -/

theorem mulDivRound_below {a a' b b' d : ℕ} (ha : a ≤ a') (hb : b ≤ b') :
    Below (mulDivRound a b d) (mulDivRound a' b' d) := by
  refine (below_checkedMul ha hb).bind fun _ _ _ _ hprod => ?_
  refine (below_checkedAdd hprod le_rfl).bind fun _ _ _ _ hadj => ?_
  exact .require_bind id fun _ => .pure (Nat.div_le_div_right hadj)

theorem mulDivRoundIf_below {due : Prop} [Decidable due] {x x' y y' scale : ℕ} (hx : x ≤ x')
    (hy : y ≤ y') : Below (mulDivRoundIf due x y scale) (mulDivRoundIf due x' y' scale) := by
  unfold mulDivRoundIf
  split
  · exact mulDivRound_below hx hy
  · exact .pure hx

/-- Through the loop, a lesser base keeps a lesser power. -/
theorem powFixedLoop_below {scale : ℕ} (fuel : ℕ) {acc acc' base base' : ℕ} (exp : ℕ)
    (ha : acc ≤ acc') (hb : base ≤ base') :
    Below (powFixedLoop scale fuel acc base exp) (powFixedLoop scale fuel acc' base' exp) := by
  induction fuel generalizing acc acc' base base' exp with
  | zero => exact .pure ha
  | succ fuel ih =>
    rw [powFixedLoop_succ, powFixedLoop_succ]
    by_cases hexp : 0 < exp
    · rw [if_pos hexp, if_pos hexp]
      refine (mulDivRoundIf_below ha hb).bind fun _ _ _ _ hacc => ?_
      exact (mulDivRoundIf_below hb hb).bind fun _ _ _ _ hbase => ih _ hacc hbase
    · rw [if_neg hexp, if_neg hexp]
      exact .pure ha

/-! ## Powers of at least one -/

theorem mulDivRound_eq_ok {a b d r : ℕ} :
    mulDivRound a b d = .ok r ↔
      a * b + d / 2 < 2 ^ 128 ∧ d ≠ 0 ∧ (a * b + d / 2) / d = r := by
  simp only [mulDivRound, bind_eq_ok, okOr_eq_ok, checkedMul_eq_some, checkedAdd_eq_some,
    require_eq_ok, pure_eq_ok]
  constructor
  · rintro ⟨_, ⟨_, rfl⟩, _, ⟨hfits, rfl⟩, _, hne, hr⟩
    exact ⟨hfits, hne, hr⟩
  · rintro ⟨hfits, hne, hr⟩
    exact ⟨_, ⟨Nat.lt_of_le_of_lt (Nat.le_add_right _ _) hfits, rfl⟩, _, ⟨hfits, rfl⟩, ⟨⟩, hne, hr⟩

theorem le_mulDivRound {a b scale r : ℕ} (ha : scale ≤ a) (hb : scale ≤ b)
    (h : mulDivRound a b scale = .ok r) : scale ≤ r := by
  obtain ⟨_, hne, rfl⟩ := mulDivRound_eq_ok.mp h
  rw [Nat.le_div_iff_mul_le (Nat.pos_of_ne_zero hne)]
  exact Nat.le_add_right_of_le (Nat.mul_le_mul ha hb)

theorem le_mulDivRoundIf {due : Prop} [Decidable due] {x y scale r : ℕ} (hx : scale ≤ x)
    (hy : scale ≤ y) (h : mulDivRoundIf due x y scale = .ok r) : scale ≤ r := by
  unfold mulDivRoundIf at h
  split at h
  · exact le_mulDivRound hx hy h
  · exact (pure_eq_ok _ _).mp h ▸ hx

theorem le_powFixed {base exp scale r : ℕ} (hb : scale ≤ base)
    (h : powFixed base exp scale = .ok r) : scale ≤ r := by
  obtain ⟨_, hr, _⟩ := powFixedLoop_induction (P := fun acc base _ => scale ≤ acc ∧ scale ≤ base)
    (fun hle hacc hbase => ⟨le_mulDivRoundIf hle.1 hle.2 hacc, le_mulDivRoundIf hle.2 hle.2 hbase⟩)
    exp le_rfl ⟨le_rfl, hb⟩ h
  exact hr

/-! ## The yield -/

/-- The daily factor in fixed point. -/
def fixedFactor (apr : ℕ) : ℕ :=
  intScale + (intScale * apr + extScale * compoundings / 2) / (extScale * compoundings)

theorem compound_eq_ok {apr : UInt64} {pow : ℕ} (h : compound apr = .ok pow) :
    powFixed (fixedFactor apr.toNat) compoundings intScale = .ok pow := by
  simp only [compound, bind_eq_ok, okOr_eq_ok, checkedMul_eq_some, checkedAdd_eq_some] at h
  obtain ⟨num, ⟨_, hnum⟩, den, ⟨_, hden⟩, rounded, ⟨_, hrounded⟩, base, ⟨_, hbase⟩, hpow⟩ := h
  unfold fixedFactor
  rw [← hnum, ← hden, ← hrounded, ← hbase]
  exact hpow

/-- The compounding is at least 1.0, so the subtraction is exact. -/
theorem le_of_compound {apr : UInt64} {pow : ℕ} (h : compound apr = .ok pow) : intScale ≤ pow :=
  le_powFixed (Nat.le_add_right _ _) (compound_eq_ok h)

theorem compound_below {a b : UInt64} (h : a ≤ b) : Below (compound a) (compound b) := by
  have hle := UInt64.le_iff_toNat_le.mp h
  refine (below_checkedMul le_rfl hle).bind fun _ _ _ _ hnum => ?_
  refine (below_checkedMul le_rfl le_rfl).bind fun _ _ hden hden' _ => ?_
  obtain rfl := Except.ok.inj (hden.symm.trans hden')
  refine (below_checkedAdd hnum le_rfl).bind fun _ _ _ _ hrounded => ?_
  refine (below_checkedAdd le_rfl (Nat.div_le_div_right hrounded)).bind fun _ _ _ _ hle => ?_
  exact powFixedLoop_below _ _ le_rfl hle

/-- A lesser rate has a yield wherever a greater one has, and no greater one. -/
theorem calculateApyFromApr_below {a b : UInt64} (h : a ≤ b) :
    Below (calculateApyFromApr a) (calculateApyFromApr b) := by
  refine (compound_below h).bind fun _ _ hpow _ hle => ?_
  refine (below_checkedSub (le_of_compound hpow) hle).bind fun _ _ _ _ hle => ?_
  refine (mulDivRound_below hle le_rfl).bind fun x y _ _ hle => ?_
  refine .require_bind hle.trans_lt fun hy => .pure ?_
  rw [UInt64.le_iff_toNat_le, toNat_ofNat_of_lt (hle.trans_lt hy), toNat_ofNat_of_lt hy]
  exact hle

/-- The greatest rate that has a yield: 588% a year, in millionths. -/
def maxApr : UInt64 := 5876581

theorem calculateApyFromApr_ok_iff {apr : UInt64} :
    (∃ apy, calculateApyFromApr apr = .ok apy) ↔ apr ≤ maxApr := by
  constructor
  · intro h
    obtain ⟨apy, hapy⟩ := h
    by_contra hnot
    have hnext : maxApr + 1 ≤ apr := by
      have hlt := UInt64.lt_iff_toNat_lt.mp (UInt64.not_le.mp hnot)
      exact UInt64.le_iff_toNat_le.mpr hlt
    obtain ⟨_, hok, _⟩ := calculateApyFromApr_below hnext _ hapy
    have hfails : calculateApyFromApr (maxApr + 1) = .error (.getAPY .overflow) := by
      decide +kernel
    rw [hfails] at hok
    cases hok
  · intro h
    obtain ⟨apy, hapy⟩ : ∃ apy, calculateApyFromApr maxApr = .ok apy :=
      exists_ok_of_toBool (by decide +kernel)
    obtain ⟨a, ha, _⟩ := calculateApyFromApr_below h _ hapy
    exact ⟨a, ha⟩

/-! ## The only failure -/

theorem mulDivRound_avoids {a b d : ℕ} {e : Error} (hd : d ≠ 0) (he : .getAPY .overflow ≠ e) :
    Avoids e (mulDivRound a b d) := by
  refine avoids_bind (avoids_okOr _ he) fun _ _ => ?_
  refine avoids_bind (avoids_okOr _ he) fun _ _ => ?_
  refine avoids_bind ?_ fun _ _ => avoids_pure _ _
  intro h
  exact ((require_eq_error _ _ _).mp h).1 hd

theorem mulDivRoundIf_avoids {due : Prop} [Decidable due] {x y scale : ℕ} {e : Error}
    (hscale : scale ≠ 0) (he : .getAPY .overflow ≠ e) :
    Avoids e (mulDivRoundIf due x y scale) := by
  unfold mulDivRoundIf
  split
  · exact mulDivRound_avoids hscale he
  · exact avoids_pure _ _

theorem powFixedLoop_avoids {scale : ℕ} {e : Error} (hscale : scale ≠ 0)
    (he : .getAPY .overflow ≠ e) (fuel acc base exp : ℕ) :
    Avoids e (powFixedLoop scale fuel acc base exp) := by
  induction fuel generalizing acc base exp with
  | zero => exact avoids_pure _ _
  | succ fuel ih =>
    rw [powFixedLoop_succ]
    split
    · refine avoids_bind (mulDivRoundIf_avoids hscale he) fun _ _ => ?_
      exact avoids_bind (mulDivRoundIf_avoids hscale he) fun _ _ => ih _ _ _
    · exact avoids_pure _ _

theorem compound_avoids {apr : UInt64} {e : Error} (he : .getAPY .overflow ≠ e) :
    Avoids e (compound apr) := by
  refine avoids_bind (avoids_okOr _ he) fun _ _ => ?_
  refine avoids_bind (avoids_okOr _ he) fun _ _ => ?_
  refine avoids_bind (avoids_okOr _ he) fun _ _ => ?_
  refine avoids_bind (avoids_okOr _ he) fun _ _ => ?_
  exact powFixedLoop_avoids (by decide) he _ _ _ _

theorem calculateApyFromApr_avoids {apr : UInt64} {e : Error} (he : .getAPY .overflow ≠ e) :
    Avoids e (calculateApyFromApr apr) := by
  refine avoids_bind (compound_avoids he) fun _ _ => ?_
  refine avoids_bind (avoids_okOr _ he) fun _ _ => ?_
  refine avoids_bind (mulDivRound_avoids (by decide) he) fun _ _ => ?_
  exact avoids_bind (avoids_require _ he) fun _ _ => avoids_pure _ _

/-- Above the greatest rate the computation overflows, and fails in no other way. -/
theorem calculateApyFromApr_overflow {apr : UInt64} (h : maxApr < apr) :
    calculateApyFromApr apr = .error (.getAPY .overflow) := by
  cases hfails : calculateApyFromApr apr with
  | ok apy => exact absurd (calculateApyFromApr_ok_iff.mp ⟨apy, hfails⟩) (UInt64.not_le.mpr h)
  | error e =>
    by_contra hne
    exact calculateApyFromApr_avoids (fun he => hne (congrArg _ he.symm)) hfails

end OnreApp.Program
