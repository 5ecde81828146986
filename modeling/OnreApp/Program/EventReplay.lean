import OnreApp.Library.Log
import OnreApp.Program.Events
import OnreApp.Program.Genesis
import OnreApp.Program.Governance
import OnreApp.Redemption.Book

/-!
# The log tells the whole story

Whoever has the state account, the offers and the redemption book of one moment can follow
the program from its events alone: applying them one after another gives these accounts as
they are at any later moment, slot by slot. Only `initialize` leaves no event.
-/
namespace OnreApp

/-- The key an event names, if it is one that can have signed. -/
def ExternalKey.ofKey (k : Pubkey) : Option ExternalKey :=
  if h : k ∉ programAuthorities ∧ k ≠ Pubkey.default then some ⟨k, h.1, h.2⟩ else none

@[simp] theorem ExternalKey.ofKey_key (k : ExternalKey) : ExternalKey.ofKey k.key = some k :=
  dif_pos ⟨k.external, k.nonzero⟩

end OnreApp

namespace OnreApp.Program

open Library.FiniteStore Library.Log Library.Outcome Library.Run Offers Redemption Tokens Utils

/-! ## What an event says about each account -/

/-- What an event says about an open state account. -/
def rewriteState : Event → State → State
  | .bossProposed _ proposedBoss, s => { s with proposedBoss }
  | .bossAccepted _ newBoss, s =>
    match ExternalKey.ofKey newBoss with
    | some boss => { s with boss, proposedBoss := Pubkey.default }
    | none => s
  | .adminAdded admin _, s =>
    match s.admins.toList.findIdx? (· = Pubkey.default) with
    | some i => setAdmin s i admin
    | none => s
  | .adminRemoved admin _, s =>
    match s.admins.toList.findIdx? (· = admin) with
    | some i => setAdmin s i Pubkey.default
    | none => s
  | .adminsCleared _, s => { s with admins := noAdmins }
  | .approverAdded approver _, s =>
    match (approverSlots s).findIdx? (· = Pubkey.default) with
    | some i => setApprover s i approver
    | none => s
  | .approverRemoved approver _, s =>
    match (approverSlots s).findIdx? (· = approver) with
    | some i => setApprover s i Pubkey.default
    | none => s
  | .killSwitchToggled isKilled _, s => { s with isKilled }
  | .maxSupplyConfigured _ maxSupply, s => { s with maxSupply }
  | .onycMintUpdated _ onycMint, s => { s with onycMint }
  | .redemptionAdminUpdated _ redemptionAdmin, s => { s with redemptionAdmin }
  | _, s => s

def applyState : Event → Option State → Option State
  | .stateClosed _, _ => none
  | e, state => state.map (rewriteState e)

/-- Write a vector into the first slot that starts at `t`. -/
def writeSlotAt (offer : Offer) (t : UInt64) (v : OfferVector) : Offer :=
  match findVectorIndexByStartTime offer t with
  | some i => offer.setSlot i v
  | none => offer

def applyOffers : Event → Store OfferPda Offer → Store OfferPda Offer
  | .offerMade k tokenInMint tokenOutMint fee _ needsApproval allowPermissionless, offers =>
    offers.insert k (newOffer tokenInMint tokenOutMint fee needsApproval allowPermissionless)
  | .offerVectorEvicted tokenInMint tokenOutMint t, offers =>
    modify offers ⟨tokenInMint, tokenOutMint⟩ fun o => clearSlots o (·.startTime = t)
  | .offerVectorAdded k startTime baseTime basePrice apr priceFixDuration, offers =>
    modify offers k fun o =>
      writeSlotAt o 0 ⟨startTime, baseTime, basePrice, apr, priceFixDuration⟩
  | .offerVectorDeleted k t, offers =>
    modify offers k fun o => writeSlotAt o t OfferVector.default
  | .allOfferVectorsDeleted k _, offers => modify offers k deleteAllVectors
  | .offerFeeUpdated k _ feeBasisPoints _, offers =>
    modify offers k fun o => { o with feeBasisPoints }
  | _, offers => offers

/-- What a request's event says about the redemption offers and the open requests. -/
def applyRequest : RedemptionEvent → Book → Book
  | .created p k redeemer amount id, b =>
    match ExternalKey.ofKey redeemer with
    | some redeemer =>
      { b with
        offers := modify b.offers k (RedemptionOffer.request · amount)
        requests := b.requests.insert p ⟨k, id, redeemer, amount⟩ }
    | none => b
  | .fulfilled p k _ tokenInNetAmount tokenInFeeAmount _ _, b =>
    { b with
      offers := modify b.offers k (RedemptionOffer.fulfill · (tokenInNetAmount + tokenInFeeAmount))
      requests := b.requests.erase p }
  | .cancelled p k _ amount _, b =>
    { b with
      offers := modify b.offers k (RedemptionOffer.cancel · amount)
      requests := b.requests.erase p }

def applyBook : Event → Book → Book
  | .redemptionOfferCreated k offer tokenInMint tokenOutMint fee, b =>
    { b with offers := b.offers.insert k ⟨offer, tokenInMint, tokenOutMint, 0, 0, fee, 0⟩ }
  | .redemptionOfferFeeUpdated k _ feeBasisPoints _, b =>
    { b with offers := modify b.offers k fun o => { o with feeBasisPoints } }
  | .redemptionRequest e, b => { applyRequest e b with events := e :: b.events }
  | _, b => b

/-! ## Which accounts an event is about -/

/-- The accounts that events are about. -/
inductive Subject
  | state | offers | redemptions | other
  deriving DecidableEq

def Event.subject : Event → Subject
  | .bossProposed _ _ | .bossAccepted _ _ | .adminAdded _ _ | .adminRemoved _ _ | .adminsCleared _
  | .approverAdded _ _ | .approverRemoved _ _ | .killSwitchToggled _ _ | .maxSupplyConfigured _ _
  | .onycMintUpdated _ _ | .redemptionAdminUpdated _ _ | .stateClosed _ => .state
  | .offerMade _ _ _ _ _ _ _ | .offerVectorAdded _ _ _ _ _ _ | .offerVectorEvicted _ _ _
  | .offerVectorDeleted _ _ | .allOfferVectorsDeleted _ _ | .offerFeeUpdated _ _ _ _ => .offers
  | .redemptionOfferCreated _ _ _ _ _ | .redemptionOfferFeeUpdated _ _ _ _
  | .redemptionRequest _ => .redemptions
  | _ => .other

/-- The accounts an instruction writes besides token accounts. -/
def Instruction.subject : Instruction → Subject
  | .initializeState _ | .proposeBoss _ _ | .acceptBoss _ | .addAdmin _ _ | .removeAdmin _ _
  | .clearAdmins _ | .setKillSwitch _ _ | .setOnycMint _ | .setRedemptionAdmin _ _
  | .addApprover _ _ | .removeApprover _ _ | .configureMaxSupply _ _ | .closeState _ => .state
  | .makeOffer _ _ _ _ | .addOfferVector _ _ | .deleteOfferVector _ _ | .deleteAllOfferVectors _
  | .updateOfferFee _ _ => .offers
  | .makeRedemptionOffer _ _ | .updateRedemptionOfferFee _ _ | .createRedemptionRequest _ _
  | .fulfillRedemptionRequest _ | .cancelRedemptionRequest _ => .redemptions
  | _ => .other

variable {env : Env} {i : Instruction} {w w' : World} {e : Event}

theorem mem_emit (h : e ∈ emit ⟨env, i⟩ w) : ∃ es, events env i w = .ok es ∧ e ∈ es := by
  unfold emit at h
  cases hes : events env i w with
  | ok es =>
    rw [hes] at h
    exact ⟨es, rfl, h⟩
  | error err =>
    rw [hes] at h
    cases h

/-- An instruction logs only about the accounts it writes. -/
theorem subject_of_mem_emit (h : e ∈ emit ⟨env, i⟩ w) : e.subject = i.subject := by
  obtain ⟨es, hes, he⟩ := mem_emit h
  cases i with
  | initializeState | initializePermissionlessAuthority =>
    cases hes
    cases he
  | offerVaultDeposit | offerVaultWithdraw | redemptionVaultDeposit | redemptionVaultWithdraw
  | makeOffer | deleteOfferVector | transferMintAuthorityToProgram | transferMintAuthorityToBoss
  | mintTo | makeRedemptionOffer | proposeBoss | addAdmin | removeAdmin | clearAdmins
  | setKillSwitch | addApprover | removeApprover | closeState =>
    cases hes
    obtain rfl := List.mem_singleton.mp he
    rfl
  | deleteAllOfferVectors | updateOfferFee | takeOffer | takeOfferPermissionless | getNav | getApy
  | getNavAdjustment | getTvl | getCirculatingSupply | createRedemptionRequest
  | fulfillRedemptionRequest | cancelRedemptionRequest | updateRedemptionOfferFee | acceptBoss
  | setOnycMint | setRedemptionAdmin | configureMaxSupply =>
    simp only [events, bind_eq_ok, pure_eq_ok] at hes
    obtain ⟨_, _, rfl⟩ := hes
    obtain rfl := List.mem_singleton.mp he
    rfl
  | addOfferVector ctx args =>
    simp only [events, addVectorEvents, bind_eq_ok, pure_eq_ok] at hes
    obtain ⟨_, _, rfl⟩ := hes
    rcases List.mem_append.mp he with hevicted | hadded
    · obtain ⟨_, _, rfl⟩ := List.mem_map.mp hevicted
      rfl
    · obtain rfl := List.mem_singleton.mp hadded
      rfl

theorem applyState_ignored (e : Event) (o : Option State) (h : e.subject ≠ .state) :
    applyState e o = o := by
  have hid : o.map (fun s => s) = o := by rw [Option.map_id']
  cases e
  all_goals first | exact hid | exact absurd rfl h

theorem applyOffers_ignored (e : Event) (s : Store OfferPda Offer) (h : e.subject ≠ .offers) :
    applyOffers e s = s := by
  cases e
  all_goals first | rfl | exact absurd rfl h

theorem applyBook_ignored (e : Event) (b : Book) (h : e.subject ≠ .redemptions) :
    applyBook e b = b := by
  cases e
  all_goals first | rfl | exact absurd rfl h

/-- What is replayed from the events about one kind of account is left by instructions that write
other accounts. -/
theorem replay_elsewhere {β : Type} {subject : Subject} {apply : Event → β → β}
    (ignored : ∀ e b, e.subject ≠ subject → apply e b = b) (hi : i.subject ≠ subject) (b : β) :
    replay apply b (emit ⟨env, i⟩ w) = b := by
  apply replay_ignored
  intro e he b
  apply ignored
  rw [subject_of_mem_emit he]
  exact hi

/-! ## What other instructions leave -/

theorem state_kept (h : execute env i w = .ok w') (hi : i.subject ≠ .state) :
    w'.state = w.state := by
  have hstep := execute_stateStep h
  generalize w'.state = o' at hstep
  generalize w.state = o at hstep
  cases hstep with
  | kept => rfl
  | bossWrites _ write =>
    cases write
    all_goals exact absurd rfl hi
  | initialized | acceptBoss | setKillSwitch | closeState => exact absurd rfl hi

theorem offers_kept (h : execute env i w = .ok w') (hi : i.subject ≠ .offers) :
    w'.offers = w.offers := by
  cases i with
  | makeOffer | addOfferVector | deleteOfferVector | deleteAllOfferVectors | updateOfferFee =>
    exact absurd rfl hi
  | initializeState ctx =>
    obtain ⟨_, _, rfl⟩ := initializeState_ok h
    rfl
  | initializePermissionlessAuthority ctx name =>
    obtain ⟨_, _, _, _, rfl⟩ := initializePermissionlessAuthority_ok h
    rfl
  | offerVaultDeposit | redemptionVaultDeposit =>
    obtain ⟨_, _, _, _, _, _, _, rfl⟩ := vaultDeposit_ok h
    rfl
  | offerVaultWithdraw | redemptionVaultWithdraw =>
    obtain ⟨_, _, _, _, _, _, _, rfl⟩ := vaultWithdraw_ok h
    rfl
  | takeOffer =>
    obtain ⟨_, _, _, _, rfl⟩ := takeOffer_ledger h
    rfl
  | takeOfferPermissionless =>
    obtain ⟨_, _, _, _, rfl⟩ := takeOfferPermissionless_ledger h
    rfl
  | acceptBoss =>
    obtain ⟨_, _, _, _, rfl⟩ := acceptBoss_eq_ok.mp h
    rfl
  | setKillSwitch =>
    obtain ⟨_, _, _, rfl⟩ := setKillSwitch_eq_ok.mp h
    rfl
  | closeState =>
    obtain ⟨_, _, _, rfl⟩ := closeState_eq_ok.mp h
    rfl
  | proposeBoss | addAdmin | removeAdmin | clearAdmins | setRedemptionAdmin | addApprover
  | removeApprover | configureMaxSupply | setOnycMint =>
    obtain ⟨_, _, _, _, _, rfl⟩ := bossUpdate_eq_ok.mp h
    rfl
  | transferMintAuthorityToProgram =>
    obtain ⟨_, _, _, _, rfl⟩ := transferMintAuthorityToProgram_ok h
    rfl
  | transferMintAuthorityToBoss =>
    obtain ⟨_, _, _, _, _, rfl⟩ := transferMintAuthorityToBoss_ok h
    rfl
  | mintTo =>
    obtain ⟨_, _, _, _, _, _, _, _, _, _, _, rfl⟩ := mintTo_ok h
    rfl
  | getNav | getApy | getNavAdjustment | getTvl | getCirculatingSupply => rw [view_eq h]
  | makeRedemptionOffer =>
    obtain ⟨_, _, _, _, _, _, _, _, _, _, rfl⟩ := makeRedemptionOffer_ok h
    rfl
  | createRedemptionRequest =>
    obtain ⟨_, _, _, hc⟩ := createRedemptionRequest_ok h
    rw [hc.result]
    rfl
  | fulfillRedemptionRequest =>
    obtain ⟨_, _, _, _, _, _, _, _, _, _, hf⟩ := fulfillRedemptionRequest_ok h
    rw [hf.outcome]
    rfl
  | cancelRedemptionRequest =>
    obtain ⟨_, _, _, _, _, hc⟩ := cancelRedemptionRequest_ok h
    rw [hc.result]
    rfl
  | updateRedemptionOfferFee =>
    obtain ⟨_, _, _, _, _, _, rfl⟩ := updateRedemptionOfferFee_ok h
    rfl

theorem book_kept (h : execute env i w = .ok w') (hi : i.subject ≠ .redemptions) :
    bookOf w' = bookOf w := by
  cases execute_effect h with
  | view | initialized | govern | acceptBoss | kill | close | namePermissionless | makeOffer
  | editOffer | deposit | withdraw | mintTo | setMintAuthority | take => rfl
  | makeRedemptionOffer instr | updateRedemptionOfferFee instr | createRequest instr
  | cancelRequest instr | fulfillRequest instr =>
    rw [instr] at hi
    exact absurd rfl hi

theorem requests_kept (h : execute env i w = .ok w') (hi : i.subject ≠ .redemptions) :
    w'.redemptionRequests = w.redemptionRequests := congrArg Book.requests (book_kept h hi)

/-! ## The state account -/

theorem writesState_of_subject (h : i.subject = .state) : i.writesState = true := by
  cases i
  all_goals first | rfl | cases h

/-- The events of the boss's instructions say what they write. -/
theorem BossWrite.replay {s s' : State} (h : BossWrite s i s') (hs : w.state = some s) :
    replay applyState (some s) (emit ⟨env, i⟩ w) = some s' := by
  have hload := World.loadState_eq_ok.mpr hs
  cases h with
  | proposeBoss | clearAdmins =>
    rw [emit_of_ok rfl]
    rfl
  | addAdmin _ slot =>
    rw [emit_of_ok rfl]
    simp [applyState, rewriteState, slot]
  | removeAdmin slot =>
    rw [emit_of_ok rfl]
    simp [applyState, rewriteState, slot]
  | addApprover _ slot =>
    rw [emit_of_ok rfl]
    simp [applyState, rewriteState, slot]
  | removeApprover slot =>
    rw [emit_of_ok rfl]
    simp [applyState, rewriteState, slot]
  | setRedemptionAdmin | configureMaxSupply | setOnycMint =>
    rw [emit_of_ok (by simp only [events, hload, ok_bind]; rfl)]
    rfl

/-- Apart from `initialize`, an instruction's events say what it writes to the state. -/
theorem replay_state_step (h : execute env i w = .ok w')
    (hi : ∀ ctx, i = .initializeState ctx → w.state ≠ none) :
    replay applyState w.state (emit ⟨env, i⟩ w) = w'.state := by
  by_cases hsubject : i.subject = .state
  · have hstep := execute_stateStep h
    generalize ho : w.state = o at hstep
    generalize w'.state = o' at hstep
    cases hstep with
    | kept quiet =>
      rw [writesState_of_subject hsubject] at quiet
      cases quiet
    | initialized => exact absurd ho (hi _ rfl)
    | bossWrites _ write => exact write.replay ho
    | acceptBoss =>
      have hload := World.loadState_eq_ok.mpr ho
      rw [emit_of_ok (by simp only [events, hload, ok_bind]; rfl)]
      simp [applyState, rewriteState]
    | setKillSwitch | closeState =>
      rw [emit_of_ok rfl]
      rfl
  · rw [state_kept h hsubject]
    exact replay_elsewhere applyState_ignored hsubject _

/-! ## The offers -/

section Slots

variable {offer offer' : Offer} {newVector : OfferVector} {now : UInt64}

theorem clearSlots_congr {p q : OfferVector → Bool} (h : ∀ v ∈ offer.slots, p v = q v) :
    clearSlots offer p = clearSlots offer q := by
  have hv : offer.vectors.map (fun v => if p v then OfferVector.default else v) =
      offer.vectors.map fun v => if q v then OfferVector.default else v := by
    apply List.Vector.toList_injective
    rw [List.Vector.toList_map, List.Vector.toList_map]
    apply List.map_congr_left
    intro v hv
    rw [h v hv]
  exact congrArg (fun vectors => { offer with vectors }) hv

/-- An empty slot stays empty, so two passes are one. -/
theorem clearSlots_clearSlots (p q : OfferVector → Bool) :
    clearSlots (clearSlots offer p) q = clearSlots offer fun v => p v || q v := by
  have hv : (offer.vectors.map fun v => if p v then OfferVector.default else v).map
      (fun v => if q v then OfferVector.default else v) =
      offer.vectors.map fun v => if p v || q v then OfferVector.default else v := by
    apply List.Vector.toList_injective
    simp only [List.Vector.toList_map, List.map_map]
    apply List.map_congr_left
    intro v _
    by_cases hp : p v = true
    · simp [hp]
    · simp [hp]
  exact congrArg (fun vectors => { offer with vectors }) hv

theorem clearSlots_none : clearSlots offer (fun _ => false) = offer := by
  have hv : offer.vectors.map (fun v => if false then OfferVector.default else v) =
      offer.vectors := List.Vector.map_id _
  exact congrArg (fun vectors => { offer with vectors }) hv

/-- The cleaning empties the slots of the vectors whose eviction is logged. -/
theorem cleanOldVectors_eq_evicted (h : cleanOldVectors offer newVector now = .ok offer') :
    offer' = clearSlots offer fun v => v.startTime ∈ evictedVectors offer newVector now := by
  unfold cleanOldVectors at h
  unfold evictedVectors
  generalize (if newVector.startTime = now then (.ok newVector : Except Error _)
    else findActiveVectorAt offer now) = active at h ⊢
  cases active with
  | error e =>
    rw [← Except.ok.inj h]
    simp only [List.not_mem_nil, decide_false]
    exact clearSlots_none.symm
  | ok a =>
    simp only [bind_eq_ok, pure_eq_ok] at h
    obtain ⟨_, _, rfl⟩ := h
    apply clearSlots_congr
    intro v hv
    -- Whether a vector goes depends on its start time only.
    rw [decide_eq_decide]
    constructor
    · intro hp
      exact List.mem_map_of_mem (List.mem_filter.mpr ⟨hv, decide_eq_true hp⟩)
    · intro hp
      obtain ⟨u, hu, hut⟩ := List.mem_map.mp hp
      have hpu := of_decide_eq_true (List.mem_filter.mp hu).2
      rwa [hut] at hpu

theorem replay_evictions {offers : Store OfferPda Offer} {k : OfferPda}
    (h : offers.lookup k = some offer) (ts : List UInt64) :
    replay applyOffers offers (ts.map (.offerVectorEvicted k.tokenInMint k.tokenOutMint)) =
      offers.insert k (clearSlots offer fun v => v.startTime ∈ ts) := by
  induction ts generalizing offers offer with
  | nil =>
    simp only [List.not_mem_nil, decide_false]
    rw [clearSlots_none, insert_of_lookup h]
    rfl
  | cons t ts ih =>
    rw [List.map_cons, replay_cons]
    have hfirst : applyOffers (.offerVectorEvicted k.tokenInMint k.tokenOutMint t) offers =
        offers.insert k (clearSlots offer (·.startTime = t)) := modify_of_some h _
    rw [hfirst, ih (Finmap.lookup_insert offers), insert_insert_eq, clearSlots_clearSlots]
    simp only [List.mem_cons, Bool.decide_or]

end Slots

theorem BossOfferAccounts.offerPda_eq {ctx : BossOfferAccounts} {offer : Offer}
    (h : ctx.load w = .ok offer) :
    ctx.offerPda = ⟨offer.tokenInMint, offer.tokenOutMint⟩ := by
  obtain ⟨_, hin, hout, _⟩ := BossOfferAccounts.load_eq_ok h
  rw [hin, hout]
  rfl

theorem replay_addOfferVector {ctx : AddOfferVector} {args : AddOfferVectorArgs}
    (h : addOfferVector env ctx args w = .ok w') :
    replay applyOffers w.offers (emit ⟨env, .addOfferVector ctx args⟩ w) = w'.offers := by
  simp only [addOfferVector, addVector, bind_eq_ok, okOr_eq_ok, pure_eq_ok] at h
  obtain ⟨o, hload, _, ⟨_, _, cleaned, hclean, i, hi, rfl⟩, rfl⟩ := h
  have hlookup := (BossOfferAccounts.load_eq_ok hload).1
  have hemit : emit ⟨env, .addOfferVector ctx args⟩ w =
      addVectorEvents env.now ctx.offerPda args o := by
    apply emit_of_ok
    simp only [events, World.loadOffer_eq_ok.mpr hlookup, ok_bind]
    rfl
  have hevict := replay_evictions hlookup (evictedVectors o (args.newVector env.now) env.now)
  rw [← cleanOldVectors_eq_evicted hclean, BossOfferAccounts.offerPda_eq hload] at hevict
  rw [hemit, addVectorEvents, replay_append, hevict, BossOfferAccounts.offerPda_eq hload]
  rw [replay_cons, replay_nil]
  show modify _ _ _ = w.offers.insert _ _
  rw [modify_of_some (Finmap.lookup_insert w.offers), insert_insert_eq, writeSlotAt, hi]
  rfl

theorem replay_deleteOfferVector {ctx : DeleteOfferVector} {t : UInt64}
    (h : deleteOfferVector env ctx t w = .ok w') :
    replay applyOffers w.offers (emit ⟨env, .deleteOfferVector ctx t⟩ w) = w'.offers := by
  simp only [deleteOfferVector, deleteVector, bind_eq_ok, okOr_eq_ok, pure_eq_ok] at h
  obtain ⟨o, hload, _, ⟨_, _, i, hi, rfl⟩, rfl⟩ := h
  rw [emit_of_ok rfl]
  show modify _ _ _ = w.offers.insert _ _
  rw [modify_of_some (BossOfferAccounts.load_eq_ok hload).1, writeSlotAt, hi]

/-- An instruction's events say what it writes to the offers. -/
theorem replay_offers_step (h : execute env i w = .ok w') :
    replay applyOffers w.offers (emit ⟨env, i⟩ w) = w'.offers := by
  by_cases hsubject : i.subject = .offers
  · cases i with
    | makeOffer ctx fee needsApproval permissionless =>
      obtain ⟨_, _, _, _, _, _, rfl⟩ := makeOffer_ok h
      rw [emit_of_ok rfl]
      rfl
    | addOfferVector ctx args => exact replay_addOfferVector h
    | deleteOfferVector ctx t => exact replay_deleteOfferVector h
    | deleteAllOfferVectors ctx =>
      obtain ⟨o, _, hload, hedit, rfl⟩ := deleteAllOfferVectors_ok h env.now
      cases hedit
      have hlookup := (BossOfferAccounts.load_eq_ok hload).1
      rw [emit_of_ok (by simp only [events, World.loadOffer_eq_ok.mpr hlookup, ok_bind]; rfl)]
      exact modify_of_some hlookup _
    | updateOfferFee ctx fee =>
      obtain ⟨o, hload, rfl⟩ := updateOfferFee_ok h
      have hlookup := (BossOfferAccounts.load_eq_ok hload).1
      rw [emit_of_ok (by simp only [events, World.loadOffer_eq_ok.mpr hlookup, ok_bind]; rfl)]
      exact modify_of_some hlookup _
    | _ => cases hsubject
  · rw [offers_kept h hsubject]
    exact replay_elsewhere applyOffers_ignored hsubject _

/-! ## The redemption book -/

section Redemptions

variable {ctx : FulfillRedemptionRequest} {s : State} {offer : Offer} {o : RedemptionOffer}
  {r : RedemptionRequest} {tokenIn tokenOut : MintAccount} {result : RedemptionProcessResult}
  {l l₁ l₂ l₃ : Ledger} {amount : UInt64}

theorem emit_updateFee {ctx : UpdateRedemptionOfferFee} {fee : UInt16}
    (h : w.redemptionOffers.lookup ctx.redemptionOffer = some o) :
    emit ⟨env, .updateRedemptionOfferFee ctx fee⟩ w =
      [.redemptionOfferFeeUpdated ctx.redemptionOffer o.feeBasisPoints fee ctx.boss.key] := by
  apply emit_of_ok
  simp only [events, World.loadRedemptionOffer_eq_ok.mpr h, ok_bind]
  rfl

theorem emit_createRequest {ctx : CreateRedemptionRequest}
    (h : w.redemptionOffers.lookup ctx.redemptionOffer = some o) :
    emit ⟨env, .createRedemptionRequest ctx amount⟩ w =
      [.redemptionRequest (.created ⟨ctx.redemptionOffer, o.requestCounter⟩ ctx.redemptionOffer
        ctx.redeemer.key amount o.requestCounter)] := by
  apply emit_of_ok
  simp only [events, createEvent, World.loadRedemptionOffer_eq_ok.mpr h, ok_bind]
  rfl

theorem emit_cancelRequest {ctx : CancelRedemptionRequest}
    (h : w.redemptionRequests.lookup ctx.redemptionRequest = some r) :
    emit ⟨env, .cancelRedemptionRequest ctx⟩ w =
      [.redemptionRequest (.cancelled ctx.redemptionRequest ctx.redemptionOffer r.redeemer.key
        r.amount ctx.signer.key)] := by
  apply emit_of_ok
  simp only [events, cancelEvent, World.loadRedemptionRequest_eq_ok.mpr h, ok_bind]
  rfl

theorem emit_fulfillRequest
    (h : RequestFulfilled env ctx w w' s offer o r tokenIn tokenOut result l₁ l₂ l₃) :
    emit ⟨env, .fulfillRedemptionRequest ctx⟩ w =
      [.redemptionRequest (.fulfilled ctx.redemptionRequest ctx.redemptionOffer ctx.redeemer
        result.tokenInNetAmount result.tokenInFeeAmount result.tokenOutAmount result.price)] := by
  apply emit_of_ok
  simp only [events, fulfillEvent, World.loadOffer_eq_ok.mpr h.underlying_stored,
    World.loadRedemptionOffer_eq_ok.mpr h.offer_stored,
    World.loadRedemptionRequest_eq_ok.mpr h.request_stored,
    Ledger.loadMint_eq_ok.mpr ⟨h.tokenIn, h.tokenIn_key⟩,
    Ledger.loadMint_eq_ok.mpr ⟨h.tokenOut, h.tokenOut_key⟩, h.priced, ok_bind]
  rfl

theorem replay_createRequest {ctx : CreateRedemptionRequest}
    (h : RequestCreated env ctx amount w w' s o l) :
    replay applyBook (bookOf w)
      (emit ⟨env, .createRedemptionRequest ctx amount⟩ w) = bookOf w' := by
  rw [emit_createRequest h.offer_stored, h.result]
  rw [replay_cons, replay_nil, applyBook, applyRequest]
  simp only [ExternalKey.ofKey_key]
  rw [bookOf, modify_of_some h.offer_stored]
  rfl

theorem replay_cancelRequest {ctx : CancelRedemptionRequest}
    (h : RequestCancelled env ctx w w' s o r l₁ l₂) :
    replay applyBook (bookOf w) (emit ⟨env, .cancelRedemptionRequest ctx⟩ w) =
      bookOf w' := by
  rw [emit_cancelRequest h.request_stored, h.result]
  rw [replay_cons, replay_nil, applyBook, applyRequest, bookOf, modify_of_some h.offer_stored]
  rfl

/-- A fulfillment logs the two parts of the request, not the request. -/
theorem replay_fulfillRequest
    (h : RequestFulfilled env ctx w w' s offer o r tokenIn tokenOut result l₁ l₂ l₃) :
    replay applyBook (bookOf w) (emit ⟨env, .fulfillRedemptionRequest ctx⟩ w) =
      bookOf w' := by
  have hamount : result.tokenInNetAmount + result.tokenInFeeAmount = r.amount := by
    have hparts := processRedemptionCore_parts h.priced
    have hlt := r.amount.toNat_lt
    rw [← UInt64.toNat_inj, UInt64.toNat_add, hparts, Nat.mod_eq_of_lt hlt]
  rw [emit_fulfillRequest h, h.outcome]
  rw [replay_cons, replay_nil, applyBook, applyRequest, bookOf, modify_of_some h.offer_stored,
    hamount]
  rfl

end Redemptions

/-- An instruction's events say what it writes to the redemption book. -/
theorem replay_book_step (h : execute env i w = .ok w') :
    replay applyBook (bookOf w) (emit ⟨env, i⟩ w) = bookOf w' := by
  by_cases hsubject : i.subject = .redemptions
  · cases i with
    | makeRedemptionOffer ctx fee =>
      obtain ⟨_, _, _, _, _, _, _, _, _, _, rfl⟩ := makeRedemptionOffer_ok h
      rw [emit_of_ok rfl]
      rfl
    | createRedemptionRequest ctx amount =>
      obtain ⟨_, _, _, hc⟩ := createRedemptionRequest_ok h
      exact replay_createRequest hc
    | fulfillRedemptionRequest ctx =>
      obtain ⟨_, _, _, _, _, _, _, _, _, _, hf⟩ := fulfillRedemptionRequest_ok h
      exact replay_fulfillRequest hf
    | cancelRedemptionRequest ctx =>
      obtain ⟨_, _, _, _, _, hc⟩ := cancelRedemptionRequest_ok h
      exact replay_cancelRequest hc
    | updateRedemptionOfferFee ctx fee =>
      obtain ⟨_, o, _, _, ho, _, rfl⟩ := updateRedemptionOfferFee_ok h
      rw [emit_updateFee ho]
      show Book.mk _ _ _ = _
      rw [bookOf, modify_of_some ho]
      rfl
    | _ => cases hsubject
  · rw [book_kept h hsubject]
    exact replay_elsewhere applyBook_ignored hsubject _

/-! ## Runs -/

def Instruction.initializes : Instruction → Bool
  | .initializeState _ => true
  | _ => false

/-- The action is no `initialize`, or one that finds the state account there already. -/
def Uninitializing (w : World) (a : Action) : Prop :=
  a.instruction.initializes = true → w.state.isSome = true

instance (w : World) (a : Action) : Decidable (Uninitializing w a) :=
  inferInstanceAs (Decidable (a.instruction.initializes = true → w.state.isSome = true))

theorem notInitializing {a : Action} (h : Uninitializing w a) (ctx : Initialize)
    (hi : a.instruction = .initializeState ctx) : w.state ≠ none := by
  intro hnone
  have hsome := h (by rw [hi]; rfl)
  rw [hnone] at hsome
  cases hsome

/-- From a state account on, until one is created anew, the log determines the account: boss
and proposal, switch, mint, every admin and approver slot, cap and redemption admin. -/
theorem log_replays_state {w₀ : World} {actions : List Action}
    (h : Along step Uninitializing w₀ actions) :
    replay applyState w₀.state (log step emit w₀ actions) = (run step w₀ actions).state := by
  apply replay_log applyState World.state _ h
  intro a w w' hc hs
  exact replay_state_step hs (notInitializing hc)

/-- After `initialize`, a change of boss can be read off the log. -/
theorem log_replays_state_succession :
    let w₀ := exec step (World.genesis (Sample.ledger Sample.issuer))
      (Sample.act (.initializeState ⟨Sample.boss, some programDataAddress, Sample.onyc⟩))
    let actions := Sample.setup ++ [Sample.act (.addAdmin ⟨Sample.boss⟩ Sample.bob.key),
      Sample.act (.proposeBoss ⟨Sample.boss⟩ Sample.alice.key),
      Sample.act (.acceptBoss ⟨Sample.alice⟩)]
    (replay applyState w₀.state (log step emit w₀ actions)).map State.boss = some Sample.alice := by
  intro w₀ actions
  rw [log_replays_state (by decide +kernel)]
  decide +kernel

/-- The log determines every offer with all its slots: the evictions are logged too, and what
is added goes to the first slot that is free then. -/
theorem log_replays_offers (w₀ : World) (actions : List Action) :
    replay applyOffers w₀.offers (log step emit w₀ actions) = (run step w₀ actions).offers :=
  replay_log applyOffers World.offers (fun _ _ _ _ hs => replay_offers_step hs)
    (along_true w₀ actions)

/-- The log determines the redemption offers with their counters, and the open requests. -/
theorem log_replays_book (w₀ : World) (actions : List Action) :
    replay applyBook (bookOf w₀) (log step emit w₀ actions) = bookOf (run step w₀ actions) :=
  replay_log applyBook bookOf (fun _ _ _ _ hs => replay_book_step hs)
    (along_true w₀ actions)

end OnreApp.Program
