import OnreApp.Library.SlotSet
import OnreApp.Program.ApprovalSoundness
import OnreApp.Program.Governance

/-!
# The authority lists are sets

The twenty admin slots and the two approver fields each hold a set, whatever pattern
additions and removals leave them in. So a removed key has no authority until it is added
again.
-/
namespace OnreApp.Program

open Library.Outcome Library.Run Library.SlotSet Offers Tokens Utils

def adminSet (s : State) : Finset Pubkey := members Pubkey.default s.admins.toList

def approverSet (s : State) : Finset Pubkey := members Pubkey.default (approverSlots s)

/-- Neither list holds a key twice. -/
structure ListsDistinct (s : State) : Prop where
  admins : Distinct Pubkey.default s.admins.toList
  approvers : Distinct Pubkey.default (approverSlots s)

theorem approverSlots_setApprover {s : State} {i : ℕ} {k k' : Pubkey}
    (h : (approverSlots s)[i]? = some k') :
    approverSlots (setApprover s i k) = (approverSlots s).set i k := by
  match i, h with
  | 0, _ => rfl
  | 1, _ => rfl

/-! ## The invariant -/

theorem listsDistinct_first (ctx : Initialize) : ListsDistinct (firstState ctx) where
  admins := distinct_replicate maxAdmins
  approvers := distinct_replicate 2

/-- No write of the boss stores a key twice. -/
theorem BossWrite.listsDistinct {i : Instruction} {s s' : State} (h : BossWrite s i s')
    (hs : ListsDistinct s) : ListsDistinct s' := by
  obtain ⟨hadmins, happrovers⟩ := hs
  cases h with
  | addAdmin absent slot => exact ⟨hadmins.set (getElem?_of_findIdx? slot) absent, happrovers⟩
  | removeAdmin slot => exact ⟨hadmins.clear (getElem?_of_findIdx? slot), happrovers⟩
  | clearAdmins => exact ⟨distinct_replicate maxAdmins, happrovers⟩
  | addApprover absent slot =>
    have hslot := getElem?_of_findIdx? slot
    refine ⟨hadmins, ?_⟩
    rw [approverSlots_setApprover hslot]
    exact happrovers.set hslot absent
  | removeApprover slot =>
    have hslot := getElem?_of_findIdx? slot
    refine ⟨hadmins, ?_⟩
    rw [approverSlots_setApprover hslot]
    exact happrovers.clear hslot
  | proposeBoss | setRedemptionAdmin | configureMaxSupply | setOnycMint =>
    exact ⟨hadmins, happrovers⟩

theorem listsDistinct_step {a : Action} {w w' : World} (hw : ∀ s ∈ w.state, ListsDistinct s)
    (h : step a w = .ok w') : ∀ s ∈ w'.state, ListsDistinct s := by
  intro s' hs'
  have hstep := execute_stateStep h
  obtain ⟨env, i⟩ := a
  rw [Option.mem_def.mp hs'] at hstep
  generalize hs : w.state = o at hstep
  cases hstep with
  | kept => exact hw s' hs
  | initialized => exact listsDistinct_first _
  | bossWrites _ write => exact write.listsDistinct (hw _ hs)
  | acceptBoss | setKillSwitch =>
    have hold := hw _ hs
    exact ⟨hold.admins, hold.approvers⟩

theorem listsDistinct_run (l : Ledger) (actions : List Action) :
    ∀ s ∈ (run step (World.genesis l) actions).state, ListsDistinct s := by
  refine run_preserves (P := fun w : World => ∀ s ∈ w.state, ListsDistinct s) ?_ ?_ actions
  · intro s hs
    cases hs
  · intro a w w' hw h
    exact listsDistinct_step hw h

/-! ## Set semantics -/

/-- In the state `s` of `w`, the two operations are insertion into a set of at most `capacity`
keys and removal from it, the boss alone may call them, and neither touches the other set. -/
structure ActsAsSet (set other : State → Finset Pubkey) (capacity : ℕ)
    (add remove : BossAccounts → Pubkey → World → Except Error World) (w : World) (s : State) :
    Prop where
  card_le : (set s).card ≤ capacity
  add_iff : ∀ ctx k, k ≠ Pubkey.default →
    ((∃ w', add ctx k w = .ok w') ↔ s.boss = ctx.boss ∧ k ∉ set s ∧ (set s).card < capacity)
  added : ∀ ctx k w', k ≠ Pubkey.default → add ctx k w = .ok w' →
    ∃ s', w'.state = some s' ∧ set s' = insert k (set s) ∧ other s' = other s
  remove_iff : ∀ ctx k, k ≠ Pubkey.default →
    ((∃ w', remove ctx k w = .ok w') ↔ s.boss = ctx.boss ∧ k ∈ set s)
  removed : ∀ ctx k w', k ≠ Pubkey.default → remove ctx k w = .ok w' →
    ∃ s', w'.state = some s' ∧ set s' = (set s).erase k ∧ other s' = other s

/-- Any list of slots that is searched from its first slot acts as a set. -/
theorem actsAsSet_of_slots {slots : State → List Pubkey} {other : State → Finset Pubkey}
    (put : State → ℕ → Pubkey → State)
    {add remove : BossAccounts → Pubkey → World → Except Error World} {w : World} {s : State}
    {n : ℕ} (hs : w.state = some s) (hdistinct : Distinct Pubkey.default (slots s))
    (hlength : (slots s).length = n)
    (hput : ∀ i k k', (slots s)[i]? = some k' → slots (put s i k) = (slots s).set i k)
    (hother : ∀ i k, other (put s i k) = other s)
    (hadd : ∀ ctx k w', k ≠ Pubkey.default → (add ctx k w = .ok w' ↔ ∃ s i, w.state = some s ∧
      s.boss = ctx.boss ∧ k ∉ slots s ∧ (slots s).findIdx? (· = Pubkey.default) = some i ∧
      w' = w.setState (put s i k)))
    (hremove : ∀ ctx k w', k ≠ Pubkey.default → (remove ctx k w = .ok w' ↔ ∃ s i,
      w.state = some s ∧ s.boss = ctx.boss ∧ (slots s).findIdx? (· = k) = some i ∧
      w' = w.setState (put s i Pubkey.default))) :
    ActsAsSet (fun s => members Pubkey.default (slots s)) other n add remove w s := by
  have hmem : ∀ k, k ≠ Pubkey.default → (k ∈ members Pubkey.default (slots s) ↔ k ∈ slots s) := by
    intro k hk
    rw [mem_members]
    exact and_iff_right hk
  constructor
  · rw [← hlength]
    exact Library.SlotSet.card_le hdistinct
  · intro ctx k hk
    simp only [hadd ctx k _ hk, hmem k hk, ← hlength, ← blank_mem_iff hdistinct,
      ← exists_findIdx?_iff]
    constructor
    · intro h
      obtain ⟨w', s₁, i, hs₁, hb, habsent, hi, _⟩ := h
      obtain rfl : s = s₁ := Option.some.inj (hs.symm.trans hs₁)
      exact ⟨hb, habsent, i, hi⟩
    · intro h
      obtain ⟨hb, habsent, i, hi⟩ := h
      exact ⟨_, s, i, hs, hb, habsent, hi, rfl⟩
  · intro ctx k w' hk h
    obtain ⟨s₁, i, hs₁, _, _, hi, rfl⟩ := (hadd ctx k w' hk).mp h
    obtain rfl : s = s₁ := Option.some.inj (hs.symm.trans hs₁)
    have hslot := getElem?_of_findIdx? hi
    refine ⟨put s i k, rfl, ?_, hother i k⟩
    rw [hput i k _ hslot, members_set hslot hk]
  · intro ctx k hk
    simp only [hremove ctx k _ hk, hmem k hk, ← exists_findIdx?_iff]
    constructor
    · intro h
      obtain ⟨w', s₁, i, hs₁, hb, hi, _⟩ := h
      obtain rfl : s = s₁ := Option.some.inj (hs.symm.trans hs₁)
      exact ⟨hb, i, hi⟩
    · intro h
      obtain ⟨hb, i, hi⟩ := h
      exact ⟨_, s, i, hs, hb, hi, rfl⟩
  · intro ctx k w' hk h
    obtain ⟨s₁, i, hs₁, _, hi, rfl⟩ := (hremove ctx k w' hk).mp h
    obtain rfl : s = s₁ := Option.some.inj (hs.symm.trans hs₁)
    have hslot := getElem?_of_findIdx? hi
    refine ⟨put s i Pubkey.default, rfl, ?_, hother i Pubkey.default⟩
    rw [hput i Pubkey.default _ hslot, members_clear hdistinct hslot]

theorem admins_actAsSet {w : World} {s : State} (hs : w.state = some s) (h : ListsDistinct s) :
    ActsAsSet adminSet approverSet maxAdmins addAdmin removeAdmin w s :=
  actsAsSet_of_slots setAdmin hs h.admins s.admins.2 (fun _ _ _ _ => rfl) (fun _ _ => rfl)
    (fun _ _ _ _ => addAdmin_eq_ok) (fun _ _ _ _ => removeAdmin_eq_ok)

theorem approvers_actAsSet {w : World} {s : State} (hs : w.state = some s)
    (h : ListsDistinct s) :
    ActsAsSet approverSet adminSet 2 addApprover removeApprover w s := by
  apply actsAsSet_of_slots setApprover hs h.approvers rfl
  · intro i k k' hslot
    exact approverSlots_setApprover hslot
  · intro i k
    rfl
  · intro ctx k w' hk
    simp only [addApprover_eq_ok, hk, ne_eq, not_false_eq_true, true_and]
  · intro ctx k w' hk
    simp only [removeApprover_eq_ok, hk, ne_eq, not_false_eq_true, true_and]

/-! ## Revocation -/

def Instruction.addsAdmin (k : Pubkey) : Instruction → Bool
  | .addAdmin _ newAdmin => newAdmin = k
  | _ => false

def Instruction.addsApprover (k : Pubkey) : Instruction → Bool
  | .addApprover _ approver => approver = k
  | _ => false

/-- The action succeeds in adding a key, by an instruction that `adds` describes. -/
def Adds (adds : Instruction → Bool) (w : World) (a : Action) : Prop :=
  adds a.instruction = true ∧ (step a w).toBool = true

instance (adds : Instruction → Bool) (w : World) (a : Action) : Decidable (Adds adds w a) :=
  inferInstanceAs (Decidable (_ ∧ _))

/-- The stored state, if any, does not list `k`. -/
def Unlisted (set : State → Finset Pubkey) (k : Pubkey) (w : World) : Prop :=
  ∀ s ∈ w.state, k ∉ set s

/-- A key other than the default one enters the admin list by `add_admin` alone. -/
theorem StateStep.mem_adminSet {env : Env} {i : Instruction} {o : Option State} {s' : State}
    {k : Pubkey} (h : StateStep env i o (some s')) (hmem : k ∈ adminSet s') :
    (∃ s ∈ o, k ∈ adminSet s) ∨ i.addsAdmin k = true := by
  obtain ⟨hk, hslots⟩ := mem_members.mp hmem
  cases h with
  | kept => exact .inl ⟨s', rfl, hmem⟩
  | initialized => exact absurd (List.eq_of_mem_replicate hslots) hk
  | acceptBoss | setKillSwitch => exact .inl ⟨_, rfl, hmem⟩
  | @bossWrites _ s _ _ write =>
    cases write with
    | @addAdmin ctx newAdmin j absent slot =>
      rcases (mem_set_of_blank (getElem?_of_findIdx? slot) hk).mp hslots with he | hold
      · exact .inr (decide_eq_true he.symm)
      · exact .inl ⟨s, rfl, mem_members.mpr ⟨hk, hold⟩⟩
    | @removeAdmin ctx adminToRemove j slot =>
      rcases List.mem_or_eq_of_mem_set hslots with hold | he
      · exact .inl ⟨s, rfl, mem_members.mpr ⟨hk, hold⟩⟩
      · exact absurd he hk
    | clearAdmins => exact absurd (List.eq_of_mem_replicate hslots) hk
    | _ => exact .inl ⟨s, rfl, hmem⟩

/-- A key other than the default one becomes an approver by `add_approver` alone. -/
theorem StateStep.mem_approverSet {env : Env} {i : Instruction} {o : Option State} {s' : State}
    {k : Pubkey} (h : StateStep env i o (some s')) (hmem : k ∈ approverSet s') :
    (∃ s ∈ o, k ∈ approverSet s) ∨ i.addsApprover k = true := by
  obtain ⟨hk, hslots⟩ := mem_members.mp hmem
  cases h with
  | kept => exact .inl ⟨s', rfl, hmem⟩
  | initialized => exact absurd (List.eq_of_mem_replicate (n := 2) hslots) hk
  | acceptBoss | setKillSwitch => exact .inl ⟨_, rfl, hmem⟩
  | @bossWrites _ s _ _ write =>
    cases write with
    | @addApprover ctx approver j absent slot =>
      have hslot := getElem?_of_findIdx? slot
      rw [approverSlots_setApprover hslot] at hslots
      rcases (mem_set_of_blank hslot hk).mp hslots with he | hold
      · exact .inr (decide_eq_true he.symm)
      · exact .inl ⟨s, rfl, mem_members.mpr ⟨hk, hold⟩⟩
    | @removeApprover ctx approver j slot =>
      rw [approverSlots_setApprover (getElem?_of_findIdx? slot)] at hslots
      rcases List.mem_or_eq_of_mem_set hslots with hold | he
      · exact .inl ⟨s, rfl, mem_members.mpr ⟨hk, hold⟩⟩
      · exact absurd he hk
    | _ => exact .inl ⟨s, rfl, hmem⟩

/-- What is not listed stays so until it is added. -/
theorem unlisted_run {set : State → Finset Pubkey} {adds : Instruction → Bool} {k : Pubkey}
    (hset : ∀ {env i o s'}, StateStep env i o (some s') → k ∈ set s' →
      (∃ s ∈ o, k ∈ set s) ∨ adds i = true) {w : World} {actions : List Action}
    (hw : Unlisted set k w) (h : Along step (fun w a => ¬ Adds adds w a) w actions) :
    Unlisted set k (run step w actions) := by
  refine run_invariant (P := Unlisted set k) ?_ hw h
  intro a w₁ w₂ hw₁ ha hstep s₂ hs₂ hmem
  have hstate := execute_stateStep hstep
  rw [Option.mem_def.mp hs₂] at hstate
  rcases hset hstate hmem with ⟨s, hs, hold⟩ | hadds
  · exact hw₁ s hs hold
  · exact ha ⟨hadds, congrArg Except.toBool hstep⟩

/-- As an admin `k` cannot set the kill switch. -/
def CannotKill (k : Pubkey) (w : World) : Prop :=
  ∀ ctx w', ctx.signer.key = k → setKillSwitch ctx true w = .ok w' →
    ∃ s, w.state = some s ∧ s.boss = ctx.signer

/-- On either route, the one signature that approved a successful take is not by `k`. -/
def CannotApprove (k : Pubkey) (w : World) : Prop :=
  ∀ (valid : SignedMessage → Bool) env amount approval, PrecompilesPassed valid env →
    (∀ ctx w' offer, takeOffer env ctx amount approval w = .ok w' →
      w.offers.lookup ctx.offerPda = some offer → offer.needsApproval = true →
      ∃ s msg ix signed, w.state = some s ∧
        ApprovalSigned valid env s ctx.user.key msg ix signed ∧ signed.publicKey ≠ k.toBytes) ∧
    ∀ ctx w' offer, takeOfferPermissionless env ctx amount approval w = .ok w' →
      w.offers.lookup ctx.offerPda = some offer → offer.needsApproval = true →
      ∃ s msg ix signed, w.state = some s ∧
        ApprovalSigned valid env s ctx.user.key msg ix signed ∧ signed.publicKey ≠ k.toBytes

theorem cannotKill_of_unlisted {k : Pubkey} {w : World} (h : Unlisted adminSet k w) :
    CannotKill k w := by
  intro ctx w' hk hset
  obtain ⟨s, hs, hsigned, _⟩ := setKillSwitch_eq_ok.mp hset
  rcases hsigned with hb | ⟨_, hmem⟩
  · exact ⟨s, hs, hb⟩
  · rw [← hk] at h
    exact absurd (mem_members.mpr ⟨ctx.signer.nonzero, hmem⟩) (h s hs)

/-- The approver who signed is on the list. -/
theorem ApprovalSigned.mem_approverSet {valid : SignedMessage → Bool} {env : Env} {s : State}
    {user k : Pubkey} {msg : ApprovalMessage} {ix : TxInstruction} {signed : SignedMessage}
    (h : ApprovalSigned valid env s user msg ix signed) (hk : signed.publicKey = k.toBytes) :
    k ∈ approverSet s := by
  have hinj : ∀ k' : Pubkey, signed.publicKey = k'.toBytes → k' = k := by
    intro k' hk'
    rw [← Pubkey.ofBytes_toBytes k', ← Pubkey.ofBytes_toBytes k, ← hk, ← hk']
  rcases h.approver with ⟨hne, hs⟩ | ⟨hne, hs⟩
  · rw [hinj _ hs] at hne
    exact mem_members.mpr ⟨hne, by simp [approverSlots, hinj _ hs]⟩
  · rw [hinj _ hs] at hne
    exact mem_members.mpr ⟨hne, by simp [approverSlots, hinj _ hs]⟩

/-- So whoever signed is not `k`, when `k` is not listed. -/
theorem approvalSigned_of_unlisted {valid : SignedMessage → Bool} {env : Env}
    (hpassed : PrecompilesPassed valid env) {offer : Offer} (hneeds : offer.needsApproval = true)
    {approval : Option ApprovalMessage} {user k : Pubkey} {w : World} {s : State}
    (h : Unlisted approverSet k w) (hs : w.state = some s)
    (happroved : verifyOfferApproval env offer approval programId user s.approver1 s.approver2 =
      .ok ⟨⟩) :
    ∃ s msg ix signed, w.state = some s ∧ ApprovalSigned valid env s user msg ix signed ∧
      signed.publicKey ≠ k.toBytes := by
  obtain ⟨msg, ix, signed, _, hsigned⟩ := approvalSigned hpassed hneeds happroved
  exact ⟨s, msg, ix, signed, hs, hsigned, fun hk => h s hs (hsigned.mem_approverSet hk)⟩

theorem cannotApprove_of_unlisted {k : Pubkey} {w : World} (h : Unlisted approverSet k w) :
    CannotApprove k w := by
  intro valid env amount approval hpassed
  constructor
  · intro ctx w' offer htake hoffer hneeds
    obtain ⟨offer', s, _, _, _, _, _, hc, _⟩ := takeOffer_eq_ok.mp htake
    obtain rfl : offer = offer' := Option.some.inj (hoffer.symm.trans hc.offer_stored)
    exact approvalSigned_of_unlisted hpassed hneeds h hc.state_stored hc.approved
  · intro ctx w' offer htake hoffer hneeds
    obtain ⟨offer', s, _, _, _, _, _, _, _, hc, _⟩ := takeOfferPermissionless_eq_ok.mp htake
    obtain rfl : offer = offer' := Option.some.inj (hoffer.symm.trans hc.offer_stored)
    exact approvalSigned_of_unlisted hpassed hneeds h hc.state_stored hc.approved

/-- A removal that succeeded in a state where the list acts as a set leaves the key unlisted. -/
theorem ActsAsSet.unlisted {set other : State → Finset Pubkey} {n : ℕ}
    {add remove : BossAccounts → Pubkey → World → Except Error World} {w w' : World} {s : State}
    {ctx : BossAccounts} {k : Pubkey} (h : ActsAsSet set other n add remove w s)
    (hk : k ≠ Pubkey.default) (hremove : remove ctx k w = .ok w') : Unlisted set k w' := by
  intro s' hs'
  obtain ⟨s₁, hs₁, hset, _⟩ := h.removed ctx k w' hk hremove
  obtain rfl : s₁ = s' := Option.some.inj (hs₁.symm.trans hs')
  rw [hset]
  exact Finset.notMem_erase k _

/-- In every state of every run the lists act as two sets apart; and a removed key stays without the
list's authority in every continuation that does not add it again. -/
theorem authority_lists_are_sets (l : Ledger) (actions : List Action) :
    let w := run step (World.genesis l) actions
    (∀ s, w.state = some s → ListsDistinct s ∧
      ActsAsSet adminSet approverSet maxAdmins addAdmin removeAdmin w s ∧
      ActsAsSet approverSet adminSet 2 addApprover removeApprover w s ∧
      ∀ ctx, ((∃ w', clearAdmins ctx w = .ok w') ↔ s.boss = ctx.boss) ∧
        ∀ w', clearAdmins ctx w = .ok w' →
          ∃ s', w'.state = some s' ∧ adminSet s' = ∅ ∧ approverSet s' = approverSet s) ∧
    ∀ ctx k w' later, k ≠ Pubkey.default →
      (removeAdmin ctx k w = .ok w' →
        Along step (fun w a => ¬ Adds (Instruction.addsAdmin k) w a) w' later →
          CannotKill k (run step w' later)) ∧
      (removeApprover ctx k w = .ok w' →
        Along step (fun w a => ¬ Adds (Instruction.addsApprover k) w a) w' later →
          CannotApprove k (run step w' later)) := by
  intro w
  have hdistinct := listsDistinct_run l actions
  constructor
  · intro s hs
    have hlists := hdistinct s hs
    refine ⟨hlists, admins_actAsSet hs hlists, approvers_actAsSet hs hlists, ?_⟩
    intro ctx
    constructor
    · simp only [clearAdmins_eq_ok]
      constructor
      · intro h
        obtain ⟨w', s₁, hs₁, hb, _⟩ := h
        rw [Option.some.inj (hs.symm.trans hs₁)]
        exact hb
      · intro hb
        exact ⟨_, s, hs, hb, rfl⟩
    · intro w' h
      obtain ⟨s₁, hs₁, _, rfl⟩ := clearAdmins_eq_ok.mp h
      obtain rfl : s = s₁ := Option.some.inj (hs.symm.trans hs₁)
      exact ⟨_, rfl, members_replicate maxAdmins, rfl⟩
  · intro ctx k w' later hk
    constructor
    · intro hremove hquiet
      obtain ⟨s, i, hs, _⟩ := removeAdmin_eq_ok.mp hremove
      have hout := (admins_actAsSet hs (hdistinct s hs)).unlisted hk hremove
      exact cannotKill_of_unlisted (unlisted_run StateStep.mem_adminSet hout hquiet)
    · intro hremove hquiet
      obtain ⟨s, i, hs, _⟩ := removeApprover_eq_ok.mp hremove
      have hout := (approvers_actAsSet hs (hdistinct s hs)).unlisted hk hremove
      exact cannotApprove_of_unlisted (unlisted_run StateStep.mem_approverSet hout hquiet)

/-- What follows the removals: Alice fails to put herself back, Bob becomes an admin. -/
def Sample.afterRemoval : List Action :=
  [act (.addAdmin ⟨alice⟩ alice.key), act (.addApprover ⟨alice⟩ approver),
    act (.addAdmin ⟨boss⟩ bob.key)]

/-- Alice could stop the program as an admin; removed, she cannot, and the removed approver
approves nothing. -/
theorem authority_lists_are_sets_removed :
    let w := run step (World.genesis (Sample.ledger Sample.issuer))
      (Sample.market true ++ [Sample.act (.addAdmin ⟨Sample.boss⟩ Sample.alice.key)])
    (∃ w', setKillSwitch ⟨Sample.alice⟩ true w = .ok w') ∧
    (∃ w₁, removeAdmin ⟨Sample.boss⟩ Sample.alice.key w = .ok w₁ ∧
      ¬ ∃ w', setKillSwitch ⟨Sample.alice⟩ true (run step w₁ Sample.afterRemoval) = .ok w') ∧
    ∃ w₂, removeApprover ⟨Sample.boss⟩ Sample.approver w = .ok w₂ ∧
      CannotApprove Sample.approver (run step w₂ Sample.afterRemoval) := by
  intro w
  have hsets := (authority_lists_are_sets (Sample.ledger Sample.issuer)
    (Sample.market true ++ [Sample.act (.addAdmin ⟨Sample.boss⟩ Sample.alice.key)])).2
  refine ⟨exists_ok_of_toBool (by decide +kernel), ?_, ?_⟩
  · obtain ⟨w₁, hremove⟩ : ∃ w', removeAdmin ⟨Sample.boss⟩ Sample.alice.key w = .ok w' :=
      exists_ok_of_toBool (by decide +kernel)
    have hw₁ : w₁ = exec step w (Sample.act (.removeAdmin ⟨Sample.boss⟩ Sample.alice.key)) :=
      (exec_ok hremove).symm
    refine ⟨w₁, hremove, fun hkill => ?_⟩
    obtain ⟨w', hkill⟩ := hkill
    have hcannot := (hsets ⟨Sample.boss⟩ Sample.alice.key w₁ Sample.afterRemoval (by decide)).1
      hremove (by rw [hw₁]; decide +kernel)
    obtain ⟨s, hs, hboss⟩ := hcannot ⟨Sample.alice⟩ w' rfl hkill
    have hstored : (run step w₁ Sample.afterRemoval).state.map State.boss = some Sample.boss := by
      rw [hw₁]
      decide +kernel
    exact Sample.ne_boss hstored (by decide) s hs hboss.symm
  · obtain ⟨w₂, hremove⟩ : ∃ w', removeApprover ⟨Sample.boss⟩ Sample.approver w = .ok w' :=
      exists_ok_of_toBool (by decide +kernel)
    have hw₂ : w₂ = exec step w (Sample.act (.removeApprover ⟨Sample.boss⟩ Sample.approver)) :=
      (exec_ok hremove).symm
    exact ⟨w₂, hremove, (hsets ⟨Sample.boss⟩ Sample.approver w₂ Sample.afterRemoval
      (by decide)).2 hremove (by rw [hw₂]; decide +kernel)⟩

end OnreApp.Program
