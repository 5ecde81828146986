import OnreApp.Program.Genesis
import OnreApp.Program.Governance

/-!
# Succession of the boss

The boss changes in two steps, a proposal and its acceptance. The invariant says of every
pending proposal who made it: the boss that is still in office.
-/
namespace OnreApp.Program

open Library.Outcome Library.Run Tokens

/-- The upgrade authority in the loader's record of this program. -/
def upgradeAuthority (env : Env) : Option Pubkey :=
  match (env.rawAccount programDataAddress).loaderState with
  | some (.programData _ authority) => authority
  | _ => none

/-- The program can be upgraded when the action is executed. -/
def Upgradeable (a : Action) : Prop := (upgradeAuthority a.env).isSome = true

instance (a : Action) : Decidable (Upgradeable a) :=
  inferInstanceAs (Decidable ((upgradeAuthority a.env).isSome = true))

theorem getUpgradeAuthority_ok {env : Env} {programData authority : Option Pubkey}
    (h : getUpgradeAuthority env programData = .ok authority) :
    authority = upgradeAuthority env := by
  simp only [getUpgradeAuthority, bind_eq_ok, require_eq_ok, okOr_eq_ok] at h
  obtain ⟨_, _, key, _, _, _, _, rfl, loaded, hl, h⟩ := h
  unfold upgradeAuthority
  rw [hl]
  cases loaded with
  | programData slot recorded =>
    cases h
    rfl
  | other => cases h

/-- The instructions that set the boss or the proposal, or remove both. -/
def Instruction.isSuccession : Instruction → Bool
  | .initializeState _ | .proposeBoss _ _ | .acceptBoss _ | .closeState _ => true
  | _ => false

/-- Of the instructions of succession that succeeded, the last is the proposal of `k`, which
`b` signed as the boss of that moment. -/
inductive LastProposal (w₀ : World) : List Action → Signer → Pubkey → Prop
  | proposed {actions : List Action} {env : Env} {ctx : BossAccounts} {k : Pubkey} {s : State}
    {w' : World} (stored : (run step w₀ actions).state = some s) (signed : s.boss = ctx.boss)
    (succeeds : step ⟨env, .proposeBoss ctx k⟩ (run step w₀ actions) = .ok w') :
    LastProposal w₀ (actions ++ [⟨env, .proposeBoss ctx k⟩]) ctx.boss k
  | later {actions : List Action} {b : Signer} {k : Pubkey} {a : Action}
    (proposal : LastProposal w₀ actions b k)
    (other : a.instruction.isSuccession = true → ∃ e, step a (run step w₀ actions) = .error e) :
    LastProposal w₀ (actions ++ [a]) b k

/-- Every pending proposal is the last one, and the current boss made it. -/
def ProposalsCurrent (w₀ : World) (actions : List Action) (w : World) : Prop :=
  ∀ s ∈ w.state, s.proposedBoss ≠ Pubkey.default →
    LastProposal w₀ actions s.boss s.proposedBoss

/-- A boss's write other than a proposal leaves boss and proposal alone. -/
theorem BossWrite.succession_cases {i : Instruction} {s s' : State} (h : BossWrite s i s') :
    (∃ ctx, i = .proposeBoss ctx s'.proposedBoss ∧ s'.boss = s.boss) ∨
      i.isSuccession = false ∧ s'.boss = s.boss ∧ s'.proposedBoss = s.proposedBoss := by
  cases h with
  | @proposeBoss ctx newBoss named => exact .inl ⟨ctx, rfl, rfl⟩
  | _ => exact .inr ⟨rfl, rfl, rfl⟩

theorem proposalsCurrent_step {w₀ w' : World} {actions : List Action} {a : Action}
    (hw : ProposalsCurrent w₀ actions (run step w₀ actions))
    (h : step a (run step w₀ actions) = .ok w') : ProposalsCurrent w₀ (actions ++ [a]) w' := by
  intro s' hs' hne
  have hstep := execute_stateStep h
  obtain ⟨env, i⟩ := a
  have later : ∀ s, (run step w₀ actions).state = some s → s'.boss = s.boss →
      s'.proposedBoss = s.proposedBoss → i.isSuccession = false →
      LastProposal w₀ (actions ++ [⟨env, i⟩]) s'.boss s'.proposedBoss := by
    intro s hs hb hp hi
    rw [hp] at hne
    rw [hb, hp]
    refine .later (hw s hs hne) ?_
    intro hsucc
    exact absurd (hi.symm.trans hsucc) Bool.false_ne_true
  rw [Option.mem_def.mp hs'] at hstep
  generalize hs : (run step w₀ actions).state = o at hstep
  cases hstep with
  | kept quiet =>
    refine later s' hs rfl rfl ?_
    cases i with
    | initializeState | proposeBoss | acceptBoss | closeState => cases quiet
    | _ => rfl
  | initialized | acceptBoss => exact absurd rfl hne
  | @bossWrites _ s _ signed write =>
    rcases write.succession_cases with ⟨ctx, hi, hb⟩ | ⟨hi, hb, hp⟩
    · have hi : i = .proposeBoss ctx s'.proposedBoss := hi
      generalize s'.proposedBoss = k at hi
      subst hi
      have hboss : s.boss = ctx.boss := (Option.some.inj signed).symm
      rw [hb, hboss]
      exact .proposed hs hboss h
    · exact later s hs hb hp hi
  | setKillSwitch => exact later _ hs rfl rfl rfl

/-- A key becomes boss as the upgrade authority, by `initialize`, or as the key that the last
proposal of the boss before it names, by `accept_boss`. -/
theorem StateStep.newBoss {env : Env} {i : Instruction} {o : Option State} {s' : State}
    (h : StateStep env i o (some s')) (hne : o.map State.boss ≠ some s'.boss) :
    (∃ ctx, i = .initializeState ctx ∧ ctx.boss = s'.boss ∧
      ∀ k ∈ upgradeAuthority env, s'.boss.key = k) ∨
    ∃ ctx s, i = .acceptBoss ctx ∧ ctx.newBoss = s'.boss ∧ o = some s ∧
      s.proposedBoss ≠ Pubkey.default ∧ s'.boss.key = s.proposedBoss := by
  cases h with
  | kept | setKillSwitch => exact absurd rfl hne
  | @bossWrites _ s _ _ write =>
    have hb : s'.boss = s.boss := by
      rcases write.succession_cases with ⟨_, _, hb⟩ | ⟨_, hb, _⟩
      · exact hb
      · exact hb
    exact absurd (congrArg some hb.symm) hne
  | @initialized ctx authority recorded signed =>
    rw [getUpgradeAuthority_ok recorded] at signed
    exact .inl ⟨ctx, rfl, rfl, signed⟩
  | @acceptBoss ctx s named signed => exact .inr ⟨ctx, s, rfl, rfl, rfl, named, signed⟩

/-! ## Runs -/

/-- How the boss can change, and what is known of the office at any moment, after the run
`actions` from `w₀`. -/
structure SuccessionSound (w₀ : World) (actions : List Action) (w : World) : Prop where
  boss_nonzero : ∀ s ∈ w.state, s.boss.key ≠ Pubkey.default
  pending : ProposalsCurrent w₀ actions w
  newBoss : ∀ a w' s', Upgradeable a → step a w = .ok w' → w'.state = some s' →
    w.state.map State.boss ≠ some s'.boss →
      (∃ ctx, a.instruction = .initializeState ctx ∧ ctx.boss = s'.boss ∧
        upgradeAuthority a.env = some s'.boss.key) ∨
      ∃ ctx s, a.instruction = .acceptBoss ctx ∧ ctx.newBoss = s'.boss ∧ w.state = some s ∧
        LastProposal w₀ actions s.boss s'.boss.key
  closed : ∀ ctx w', closeState ctx w = .ok w' → ∃ s, w.state = some s ∧ ctx.boss = s.boss

theorem proposalsCurrent_run (l : Ledger) (actions : List Action) :
    ProposalsCurrent (World.genesis l) actions (run step (World.genesis l) actions) := by
  induction actions using List.reverseRecOn with
  | nil =>
    intro s hs
    cases hs
  | append_singleton actions a ih =>
    rw [run_concat]
    cases h : step a (run step (World.genesis l) actions) with
    | ok w' =>
      rw [exec_ok h]
      exact proposalsCurrent_step ih h
    | error e =>
      rw [exec_error h]
      intro s hs hne
      exact .later (ih s hs hne) fun _ => ⟨e, h⟩

/-- Succession is in two steps in every run. The loader has to record an upgrade authority
only when `initialize` is executed: without one, any signer could become boss. -/
theorem boss_succession (l : Ledger) (actions : List Action) :
    SuccessionSound (World.genesis l) actions (run step (World.genesis l) actions) := by
  have hpending := proposalsCurrent_run l actions
  constructor
  · intro s _
    exact s.boss.nonzero
  · exact hpending
  · intro a w' s' ha hstep hs' hne
    have hstate := execute_stateStep hstep
    rw [hs'] at hstate
    rcases hstate.newBoss hne with ⟨ctx, hi, hb, hk⟩ | ⟨ctx, s, hi, hb, hs, hnamed, hk⟩
    · obtain ⟨k, hsome⟩ := Option.isSome_iff_exists.mp ha
      rw [hk k hsome]
      exact .inl ⟨ctx, hi, hb, hsome⟩
    · rw [hk]
      exact .inr ⟨ctx, s, hi, hb, hs, hpending s hs hnamed⟩
  · intro ctx w' hclose
    obtain ⟨s, hs, hb, _⟩ := closeState_eq_ok.mp hclose
    exact ⟨s, hs, hb.symm⟩

/-- Alice, proposed and accepted, proposes Bob; an action later Bob becomes boss, on her
proposal. -/
theorem boss_succession_sample :
    let actions :=
      [Sample.act (.initializeState ⟨Sample.boss, some programDataAddress, Sample.onyc⟩),
        Sample.act (.proposeBoss ⟨Sample.boss⟩ Sample.alice.key),
        Sample.act (.acceptBoss ⟨Sample.alice⟩),
        Sample.act (.proposeBoss ⟨Sample.alice⟩ Sample.bob.key),
        Sample.act (.clearAdmins ⟨Sample.alice⟩)]
    let w := World.genesis (Sample.ledger Sample.issuer)
    (exec step (run step w actions) (Sample.act (.acceptBoss ⟨Sample.bob⟩))).state.map State.boss =
      some Sample.bob ∧ LastProposal w actions Sample.alice Sample.bob.key := by
  intro actions w
  have hpending := (boss_succession (Sample.ledger Sample.issuer) actions).pending
  have hstate : (run step w actions).state.map (fun s => (s.boss, s.proposedBoss)) =
      some (Sample.alice, Sample.bob.key) := by decide +kernel
  obtain ⟨s, hs, he⟩ := Option.map_eq_some_iff.mp hstate
  obtain ⟨hb, hp⟩ := Prod.mk.inj he
  have hlast := hpending s hs (by rw [hp]; decide)
  rw [hb, hp] at hlast
  exact ⟨by decide +kernel, hlast⟩

end OnreApp.Program
