import OnreApp.Program.Genesis
import OnreApp.Program.Governance

/-!
# The kill switch holds

Once on, the switch stops the five instructions that move users' tokens, whatever else is
executed, until the boss of the moment turns it off or a closed state account is created
anew.
-/
namespace OnreApp.Program

open Library.Outcome Library.Run Offers Redemption Tokens Utils

/-- The instructions that the kill switch stops. -/
def Instruction.switched : Instruction → Bool
  | .takeOffer _ _ _ | .takeOfferPermissionless _ _ _ | .createRedemptionRequest _ _
  | .cancelRedemptionRequest _ | .fulfillRedemptionRequest _ => true
  | _ => false

def Killed (w : World) : Prop := ∃ s ∈ w.state, s.isKilled = true

/-- The switch is on, or there is no state account. -/
def Halted (w : World) : Prop := ∀ s ∈ w.state, s.isKilled = true

/-- The action that ends a halt: `set_kill_switch(false)` signed by the boss of the moment,
or a successful `initialize`, which finds no state account. -/
def Resumes (w : World) (a : Action) : Prop :=
  match a.instruction with
  | .setKillSwitch ctx false => ∃ s ∈ w.state, s.boss = ctx.signer
  | .initializeState _ => (step a w).toBool = true
  | _ => False

instance (w : World) : Decidable (Killed w) :=
  inferInstanceAs (Decidable (∃ s ∈ w.state, s.isKilled = true))

theorem Killed.halted {w : World} (h : Killed w) : Halted w := by
  intro s hs
  obtain ⟨s', hs', hk⟩ := h
  rw [Option.mem_unique hs hs']
  exact hk

/-! ## One instruction -/

section Actions

variable {env : Env} {i : Instruction} {w w' : World} {s s' : State}

/-- Each of the five instructions reads the switch. -/
theorem execute_switched (hi : i.switched = true) (h : execute env i w = .ok w') :
    ∃ s, w.state = some s ∧ s.isKilled = false := by
  cases i with
  | takeOffer ctx amount approval =>
    obtain ⟨offer, s, _, _, _, _, _, hc, _⟩ := takeOffer_eq_ok.mp h
    exact ⟨s, hc.state_stored, hc.alive⟩
  | takeOfferPermissionless ctx amount approval =>
    obtain ⟨offer, s, _, _, _, _, _, _, _, hc, _⟩ := takeOfferPermissionless_eq_ok.mp h
    exact ⟨s, hc.state_stored, hc.alive⟩
  | createRedemptionRequest ctx amount =>
    obtain ⟨s, o, l, hc⟩ := createRedemptionRequest_ok h
    exact ⟨s, hc.state_stored, hc.alive⟩
  | cancelRedemptionRequest ctx =>
    obtain ⟨s, o, r, l₁, l₂, hc⟩ := cancelRedemptionRequest_ok h
    exact ⟨s, hc.state_stored, hc.alive⟩
  | fulfillRedemptionRequest ctx =>
    obtain ⟨s, offer, o, r, mi, mo, result, l₁, l₂, l₃, hf⟩ := fulfillRedemptionRequest_ok h
    exact ⟨s, hf.state_stored, hf.alive⟩
  | _ => cases hi

theorem BossWrite.isKilled_eq (h : BossWrite s i s') : s'.isKilled = s.isKilled := by
  cases h <;> rfl

/-- Nothing but `set_kill_switch` changes the switch of a stored state. -/
theorem StateStep.isKilled_cases (h : StateStep env i (some s) (some s')) :
    s'.isKilled = s.isKilled ∨ ∃ ctx, i = .setKillSwitch ctx s'.isKilled ∧
      (s.boss = ctx.signer ∨ s'.isKilled = true ∧ ctx.signer.key ∈ s.admins.toList) := by
  cases h with
  | kept | acceptBoss => exact .inl rfl
  | bossWrites _ write => exact .inl write.isKilled_eq
  | @setKillSwitch ctx enable _ signed => exact .inr ⟨ctx, rfl, signed⟩

theorem StateStep.closed (h : StateStep env i (some s) none) :
    ∃ ctx, i = .closeState ctx ∧ s.boss = ctx.boss := by
  cases h with
  | @closeState ctx _ signed => exact ⟨ctx, rfl, signed⟩

/-- A halt outlives every action that does not resume. -/
theorem halted_step {a : Action} (hw : Halted w) (ha : ¬ Resumes w a) (h : step a w = .ok w') :
    Halted w' := by
  intro s' hs'
  have hstep := execute_stateStep h
  obtain ⟨env, i⟩ := a
  rw [Option.mem_def.mp hs'] at hstep
  cases hs : w.state with
  | none =>
    rw [hs] at hstep
    cases hstep with
    | initialized => exact absurd (congrArg Except.toBool h) ha
  | some s =>
    rw [hs] at hstep
    rcases hstep.isKilled_cases with he | ⟨ctx, hi, hsigned⟩
    · rw [he]
      exact hw s hs
    · cases hk : s'.isKilled with
      | true => rfl
      | false =>
        rw [hk] at hi hsigned
        have hi : i = .setKillSwitch ctx false := hi
        subst hi
        rcases hsigned with hb | ⟨hf, _⟩
        · exact absurd ⟨s, hs, hb⟩ ha
        · cases hf

end Actions

/-! ## Runs -/

/-- What holds while the switch is on. -/
structure SwitchHolds (w : World) : Prop where
  halted : Halted w
  stopped : ∀ a w', a.instruction.switched = true → step a w ≠ .ok w'
  /-- Only the boss turns it off. -/
  unchanged : ∀ a w' s s', step a w = .ok w' → w.state = some s → w'.state = some s' →
    s'.isKilled ≠ s.isKilled → ∃ ctx, a.instruction = .setKillSwitch ctx false ∧ s.boss = ctx.signer
  /-- Only the boss closes the account that stores it. -/
  closed : ∀ a w' s, step a w = .ok w' → w.state = some s → w'.state = none →
    ∃ ctx, a.instruction = .closeState ctx ∧ s.boss = ctx.boss

theorem Halted.switchHolds {w : World} (h : Halted w) : SwitchHolds w where
  halted := h
  stopped := by
    intro a w' hi hstep
    obtain ⟨s, hs, hk⟩ := execute_switched hi hstep
    rw [h s hs] at hk
    cases hk
  unchanged := by
    intro a w' s s' hstep hs hs' hne
    have hstate := execute_stateStep hstep
    rw [hs, hs'] at hstate
    rcases hstate.isKilled_cases with he | ⟨ctx, hi, hsigned⟩
    · exact absurd he hne
    · have hk : s'.isKilled = false := by
        rw [h s hs] at hne
        exact Bool.eq_false_of_not_eq_true hne
      rw [hk] at hi hsigned
      rcases hsigned with hb | ⟨hf, _⟩
      · exact ⟨ctx, hi, hb⟩
      · cases hf
  closed := by
    intro a w' s hstep hs hs'
    have hstate := execute_stateStep hstep
    rw [hs, hs'] at hstate
    exact hstate.closed

/-- From any state with the switch on and until an action resumes, the switch holds; and it
only ever goes on for the boss or an admin. -/
theorem kill_switch_holds {w : World} {actions : List Action} (hkilled : Killed w)
    (h : Along step (fun w a => ¬ Resumes w a) w actions) :
    SwitchHolds (run step w actions) ∧
      ∀ a w₁ w₂ s s', step a w₁ = .ok w₂ → w₁.state = some s → w₂.state = some s' →
        s.isKilled = false → s'.isKilled = true →
          ∃ ctx, a.instruction = .setKillSwitch ctx true ∧
            (s.boss = ctx.signer ∨ ctx.signer.key ∈ s.admins.toList) := by
  have hhalted : Halted (run step w actions) :=
    run_invariant (fun a w₁ w₂ hw ha hstep => halted_step hw ha hstep) hkilled.halted h
  refine ⟨hhalted.switchHolds, ?_⟩
  intro a w₁ w₂ s s' hstep hs hs' hoff hon
  have hstate := execute_stateStep hstep
  rw [hs, hs'] at hstate
  rcases hstate.isKilled_cases with he | ⟨ctx, hi, hsigned⟩
  · rw [hoff, hon] at he
    cases he
  · rw [hon] at hi hsigned
    exact ⟨ctx, hi, hsigned.imp id And.right⟩

/-- The boss sets the switch and hands over to Alice; the old boss cannot turn it off, and
Bob cannot take. -/
theorem kill_switch_holds_sample :
    let w := run step (World.genesis (Sample.ledger Sample.issuer))
      (Sample.market false ++ [Sample.act (.setKillSwitch ⟨Sample.boss⟩ true)])
    let w₁ := run step w [Sample.act (.proposeBoss ⟨Sample.boss⟩ Sample.alice.key),
      Sample.act (.acceptBoss ⟨Sample.alice⟩), Sample.act (.setKillSwitch ⟨Sample.boss⟩ false)]
    SwitchHolds w₁ ∧ ∀ w₂, step (Sample.act (.takeOffer
      { Sample.aliceTakes.toTakeOffer with boss := Sample.alice.key, user := Sample.bob }
      1000 none))
        w₁ ≠ .ok w₂ := by
  intro w w₁
  have hkilled : Killed w := by decide +kernel
  have hboss : ¬ ∃ s ∈ (run step w [Sample.act (.proposeBoss ⟨Sample.boss⟩ Sample.alice.key),
      Sample.act (.acceptBoss ⟨Sample.alice⟩)]).state, s.boss = Sample.boss := by decide +kernel
  have hquiet : Along step (fun w a => ¬ Resumes w a) w
      [Sample.act (.proposeBoss ⟨Sample.boss⟩ Sample.alice.key),
        Sample.act (.acceptBoss ⟨Sample.alice⟩),
        Sample.act (.setKillSwitch ⟨Sample.boss⟩ false)] :=
    And.intro not_false (And.intro not_false (And.intro hboss trivial))
  have h := (kill_switch_holds hkilled hquiet).1
  exact ⟨h, fun w₂ => h.stopped _ w₂ rfl⟩

end OnreApp.Program
