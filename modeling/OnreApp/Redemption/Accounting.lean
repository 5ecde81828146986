import OnreApp.Program.Genesis
import OnreApp.Redemption.Book

/-!
# Redemption accounting

The counters of a redemption offer against the open requests and the events of the past:
in every state a run can reach they agree, offer by offer.
-/
namespace OnreApp.Redemption

open Library.Checked Library.FiniteStore Library.Outcome Library.Run Offers Program Tokens Utils

/-! ## What is compared -/

/-- A field of the offer stored at `k`, zero where there is none. -/
def fieldOf (offers : Store RedemptionOfferPda RedemptionOffer) (f : RedemptionOffer → ℕ)
    (k : RedemptionOfferPda) : ℕ := (offers.lookup k).elim 0 f

/-- The amounts of an offer's open requests together. -/
def openAmount (requests : Store RedemptionRequestPda RedemptionRequest) (k : RedemptionOfferPda) :
    ℕ := total requests fun _ r => if r.offer = k then r.amount.toNat else 0

/-- What an event adds to the amounts created for an offer. -/
def createdFor (k : RedemptionOfferPda) : RedemptionEvent → ℕ
  | .created _ k' _ amount _ => if k' = k then amount.toNat else 0
  | _ => 0

/-- What an event adds to the amounts fulfilled for an offer: both parts of the request. -/
def fulfilledFor (k : RedemptionOfferPda) : RedemptionEvent → ℕ
  | .fulfilled _ k' _ net fee _ _ => if k' = k then net.toNat + fee.toNat else 0
  | _ => 0

def cancelledFor (k : RedemptionOfferPda) : RedemptionEvent → ℕ
  | .cancelled _ k' _ amount _ => if k' = k then amount.toNat else 0
  | _ => 0

def sumOf (f : RedemptionEvent → ℕ) (events : List RedemptionEvent) : ℕ := (events.map f).sum

/-- The request an event creates, with its amount. -/
def creation : RedemptionEvent → Option (RedemptionRequestPda × ℕ)
  | .created p _ _ amount _ => some (p, amount.toNat)
  | _ => none

/-- The request an event cancels or fulfills, with its amount. -/
def resolution : RedemptionEvent → Option (RedemptionRequestPda × ℕ)
  | .cancelled p _ _ amount _ => some (p, amount.toNat)
  | .fulfilled p _ _ net fee _ _ => some (p, net.toNat + fee.toNat)
  | _ => none

/-- The requests ever created, latest first. -/
def creations (events : List RedemptionEvent) : List (RedemptionRequestPda × ℕ) :=
  events.filterMap creation

/-- The requests ever cancelled or fulfilled, latest first. -/
def resolutions (events : List RedemptionEvent) : List (RedemptionRequestPda × ℕ) :=
  events.filterMap resolution

/-- The requests named in a list of creations or resolutions. -/
def named (l : List (RedemptionRequestPda × ℕ)) : List RedemptionRequestPda := l.map Prod.fst

theorem mem_named {p : RedemptionRequestPda} {l : List (RedemptionRequestPda × ℕ)} :
    p ∈ named l ↔ ∃ n, (p, n) ∈ l := by
  simp [named]

section Writes

variable {offers : Store RedemptionOfferPda RedemptionOffer}
  {requests : Store RedemptionRequestPda RedemptionRequest} {k k' : RedemptionOfferPda}
  {o n : RedemptionOffer} {p : RedemptionRequestPda} {r : RedemptionRequest}

theorem sumOf_cons (f : RedemptionEvent → ℕ) (e : RedemptionEvent) (events : List RedemptionEvent) :
    sumOf f (e :: events) = f e + sumOf f events := by
  rw [sumOf, List.map_cons, List.sum_cons, sumOf]

theorem fieldOf_insert (f : RedemptionOffer → ℕ) :
    fieldOf (offers.insert k o) f k' = if k' = k then f o else fieldOf offers f k' := by
  rw [fieldOf, lookup_insert_eq]
  split
  · rfl
  · rfl

theorem fieldOf_stored (f : RedemptionOffer → ℕ) (h : offers.lookup k = some o) :
    fieldOf offers f k = f o := by
  rw [fieldOf, h]
  rfl

/-- Rewriting an offer keeps the fields that the new record has from the old one. -/
theorem fieldOf_rewrite (f : RedemptionOffer → ℕ) (h : offers.lookup k = some o) (hf : f n = f o) :
    fieldOf (offers.insert k n) f = fieldOf offers f := by
  funext k'
  rw [fieldOf_insert]
  split
  · next he => rw [he, fieldOf_stored f h, hf]
  · rfl

/-- A new offer whose field is zero reads like no offer. -/
theorem fieldOf_fresh (f : RedemptionOffer → ℕ) (h : offers.lookup k = none) (hf : f o = 0) :
    fieldOf (offers.insert k o) f = fieldOf offers f := by
  funext k'
  rw [fieldOf_insert]
  split
  · next he => rw [he, hf, fieldOf, h]; rfl
  · rfl

theorem openAmount_insert (h : requests.lookup p = none) :
    openAmount (requests.insert p r) k =
      openAmount requests k + if r.offer = k then r.amount.toNat else 0 :=
  total_insert_new h _ r

theorem openAmount_erase (h : requests.lookup p = some r) :
    openAmount (requests.erase p) k + (if r.offer = k then r.amount.toNat else 0) =
      openAmount requests k := by
  have he := total_erase requests (fun _ r => if r.offer = k then r.amount.toNat else 0) p
  rwa [weigh_of_some h] at he

end Writes

/-! ## The invariant -/

/-- Every request has one life: created under the next id of its offer, open, and resolved
once. -/
structure Registered (b : Book) : Prop where
  /-- A request account lies at the address of its own fields. -/
  seeded : ∀ p r, b.requests.lookup p = some r → p = ⟨r.offer, r.requestId⟩
  id_lt : ∀ c ∈ creations b.events,
    c.1.requestId.toNat < fieldOf b.offers (·.requestCounter.toNat) c.1.offer
  created_once : (named (creations b.events)).Nodup
  resolved_once : (named (resolutions b.events)).Nodup
  /-- A request is resolved at the amount it was created with. -/
  resolved_created : ∀ c ∈ resolutions b.events, c ∈ creations b.events
  /-- The open requests are those created and not resolved, with the amounts created. -/
  open_iff : ∀ p n, (∃ r, b.requests.lookup p = some r ∧ r.amount.toNat = n) ↔
    (p, n) ∈ creations b.events ∧ p ∉ named (resolutions b.events)

/-- The counters of every offer agree with its requests, open and past. -/
structure Balanced (b : Book) : Prop where
  requested : ∀ k, fieldOf b.offers (·.requestedRedemptions) k = openAmount b.requests k
  executed : ∀ k, fieldOf b.offers (·.executedRedemptions) k = sumOf (fulfilledFor k) b.events
  conserved : ∀ k, sumOf (createdFor k) b.events =
    openAmount b.requests k + sumOf (fulfilledFor k) b.events + sumOf (cancelledFor k) b.events
  /-- Each id below the counter was created with a 64-bit amount. -/
  bounded : ∀ k, sumOf (createdFor k) b.events ≤
    fieldOf b.offers (·.requestCounter.toNat) k * (2 ^ 64 - 1)

section Moves

variable {b b' : Book}

theorem Registered.create (h : Registered b) {k : RedemptionOfferPda} {o : RedemptionOffer}
    {redeemer : Signer} {amount : UInt64} (ho : b.offers.lookup k = some o)
    (hc : o.requestCounter.toNat + 1 < 2 ^ 64) :
    Registered
      { offers := b.offers.insert k (RedemptionOffer.request o amount)
        requests := b.requests.insert ⟨k, o.requestCounter⟩ ⟨k, o.requestCounter, redeemer, amount⟩
        events := .created ⟨k, o.requestCounter⟩ k redeemer.key amount o.requestCounter ::
          b.events } := by
  have hcounter := fieldOf_stored (·.requestCounter.toNat) ho
  have hnext : (RedemptionOffer.request o amount).requestCounter.toNat =
      o.requestCounter.toNat + 1 := toNat_ofNat_of_lt hc
  -- The id is new: all ids given out for the offer are below its counter.
  have hnew : (⟨k, o.requestCounter⟩ : RedemptionRequestPda) ∉ named (creations b.events) := by
    intro hm
    obtain ⟨n, hn⟩ := mem_named.mp hm
    have hlt := h.id_lt _ hn
    rw [hcounter] at hlt
    exact Nat.lt_irrefl _ hlt
  have hunresolved : (⟨k, o.requestCounter⟩ : RedemptionRequestPda) ∉
      named (resolutions b.events) := by
    intro hm
    obtain ⟨n, hn⟩ := mem_named.mp hm
    exact hnew (mem_named.mpr ⟨n, h.resolved_created _ hn⟩)
  constructor
  · intro p r hr
    rw [lookup_insert_eq] at hr
    split at hr
    · next hp => exact hp.trans (Option.some.inj hr ▸ rfl)
    · exact h.seeded p r hr
  · intro c hmem
    rw [fieldOf_insert]
    rcases List.mem_cons.mp hmem with rfl | hmem
    · rw [if_pos rfl, hnext]
      exact Nat.lt_succ_self _
    · have hlt := h.id_lt c hmem
      split
      · next hk =>
        rw [hk, hcounter] at hlt
        rw [hnext]
        exact hlt.trans (Nat.lt_succ_self _)
      · exact hlt
  · exact List.nodup_cons.mpr ⟨hnew, h.created_once⟩
  · exact h.resolved_once
  · intro c hmem
    exact List.mem_cons_of_mem _ (h.resolved_created c hmem)
  · intro p n
    show (∃ r, (b.requests.insert _ _).lookup p = some r ∧ _) ↔
      (p, n) ∈ (_, amount.toNat) :: creations b.events ∧ p ∉ named (resolutions b.events)
    rw [lookup_insert_eq, List.mem_cons, Prod.mk.injEq]
    by_cases hp : p = ⟨k, o.requestCounter⟩
    · rw [if_pos hp]
      constructor
      · intro hr
        obtain ⟨r, hr, hn⟩ := hr
        cases hr
        exact ⟨.inl ⟨hp, hn.symm⟩, hp ▸ hunresolved⟩
      · intro hm
        rcases hm.1 with ⟨_, hn⟩ | hm
        · exact ⟨_, rfl, hn.symm⟩
        · exact absurd (mem_named.mpr ⟨n, hp ▸ hm⟩) hnew
    · rw [if_neg hp, h.open_iff p n]
      exact and_congr_left' ⟨.inr, fun hm => hm.resolve_left fun he => hp he.1⟩

/-- Cancelling and fulfilling end the life of a request in the same way. -/
theorem Registered.resolve (h : Registered b) {k : RedemptionOfferPda} {o o' : RedemptionOffer}
    {p : RedemptionRequestPda} {r : RedemptionRequest} {e : RedemptionEvent}
    (ho : b.offers.lookup k = some o) (hcounter : o'.requestCounter = o.requestCounter)
    (hopen : b.requests.lookup p = some r) (hcreation : creation e = none)
    (hresolution : resolution e = some (p, r.amount.toNat)) :
    Registered ⟨b.offers.insert k o', b.requests.erase p, e :: b.events⟩ := by
  obtain ⟨hcreated, hunresolved⟩ := (h.open_iff p _).mp ⟨r, hopen, rfl⟩
  have hcreations : creations (e :: b.events) = creations b.events :=
    List.filterMap_cons_none hcreation
  have hresolutions : resolutions (e :: b.events) = (p, r.amount.toNat) :: resolutions b.events :=
    List.filterMap_cons_some hresolution
  have hfield := fieldOf_rewrite (·.requestCounter.toNat) ho (congrArg UInt64.toNat hcounter)
  constructor
  · intro q r' hr
    rw [lookup_erase_eq] at hr
    split at hr
    · cases hr
    · exact h.seeded q r' hr
  · rw [hcreations, hfield]
    exact h.id_lt
  · rw [hcreations]
    exact h.created_once
  · rw [hresolutions]
    exact List.nodup_cons.mpr ⟨hunresolved, h.resolved_once⟩
  · intro c hmem
    rw [hcreations]
    rw [hresolutions] at hmem
    rcases List.mem_cons.mp hmem with rfl | hmem
    · exact hcreated
    · exact h.resolved_created c hmem
  · intro q n
    rw [hcreations, hresolutions, lookup_erase_eq]
    have hnamed : q ∈ named ((p, r.amount.toNat) :: resolutions b.events) ↔
        q = p ∨ q ∈ named (resolutions b.events) := List.mem_cons
    rw [hnamed, not_or]
    by_cases hq : q = p
    · rw [if_pos hq]
      exact iff_of_false (fun hr => nomatch hr.choose_spec.1) fun hm => hm.2.1 hq
    · rw [if_neg hq, h.open_iff q n]
      exact and_congr_right fun _ => (and_iff_right hq).symm

/-- Every move keeps the register. -/
theorem Registered.move (h : Registered b) (hm : BookMove b b') : Registered b' := by
  cases hm with
  | idle => exact h
  | makeOffer fresh _ _ counter =>
    have hfield := fieldOf_fresh (·.requestCounter.toNat) fresh (congrArg UInt64.toNat counter)
    exact ⟨h.seeded, hfield ▸ h.id_lt, h.created_once, h.resolved_once, h.resolved_created,
      h.open_iff⟩
  | @setFee k o fee stored =>
    have hfield := fieldOf_rewrite (n := { o with feeBasisPoints := fee })
      (·.requestCounter.toNat) stored rfl
    exact ⟨h.seeded, hfield ▸ h.id_lt, h.created_once, h.resolved_once, h.resolved_created,
      h.open_iff⟩
  | create stored _ counter => exact h.create stored counter
  | cancel stored isOpen => exact h.resolve stored rfl isOpen rfl rfl
  | fulfill stored isOpen _ _ parts =>
    exact h.resolve stored rfl isOpen rfl (congrArg (fun n => some (_, n)) parts)

theorem Balanced.create (h : Balanced b) {k : RedemptionOfferPda} {o : RedemptionOffer}
    {redeemer : Signer} {amount : UInt64} (ho : b.offers.lookup k = some o)
    (hfresh : b.requests.lookup ⟨k, o.requestCounter⟩ = none)
    (hc : o.requestCounter.toNat + 1 < 2 ^ 64) :
    Balanced
      { offers := b.offers.insert k (RedemptionOffer.request o amount)
        requests := b.requests.insert ⟨k, o.requestCounter⟩ ⟨k, o.requestCounter, redeemer, amount⟩
        events := .created ⟨k, o.requestCounter⟩ k redeemer.key amount o.requestCounter ::
          b.events } := by
  have hnext : (RedemptionOffer.request o amount).requestCounter.toNat =
      o.requestCounter.toNat + 1 := toNat_ofNat_of_lt hc
  have hamount := amount.toNat_lt
  constructor
  · intro k'
    have hreq := h.requested k'
    rw [openAmount_insert hfresh, fieldOf_insert]
    by_cases hk : k' = k
    · subst hk
      rw [if_pos rfl, if_pos rfl, ← hreq, fieldOf_stored _ ho]
      rfl
    · rw [if_neg hk, if_neg (Ne.symm hk)]
      exact hreq
  · intro k'
    show fieldOf (b.offers.insert k _) _ k' = sumOf _ (_ :: b.events)
    rw [fieldOf_rewrite (n := RedemptionOffer.request o amount) _ ho rfl, sumOf_cons]
    exact (h.executed k').trans (Nat.zero_add _).symm
  · intro k'
    have hcons := h.conserved k'
    rw [openAmount_insert hfresh, sumOf_cons, sumOf_cons, sumOf_cons]
    simp only [createdFor, fulfilledFor, cancelledFor]
    omega
  · intro k'
    have hb := h.bounded k'
    rw [fieldOf_insert, sumOf_cons]
    simp only [createdFor]
    by_cases hk : k' = k
    · subst hk
      rw [if_pos rfl, if_pos rfl, hnext]
      rw [fieldOf_stored _ ho] at hb
      omega
    · rw [if_neg hk, if_neg (Ne.symm hk), Nat.zero_add]
      exact hb

/-- Resolving a request takes its amount from what is open and adds it to what was
fulfilled, `paid`, or to what was cancelled, `returned`. -/
theorem Balanced.resolve (h : Balanced b) {k : RedemptionOfferPda} {o o' : RedemptionOffer}
    {p : RedemptionRequestPda} {r : RedemptionRequest} {e : RedemptionEvent} {paid returned : ℕ}
    (ho : b.offers.lookup k = some o) (hopen : b.requests.lookup p = some r) (hr : r.offer = k)
    (hle : r.amount.toNat ≤ o.requestedRedemptions)
    (hrequested : o'.requestedRedemptions = o.requestedRedemptions - r.amount.toNat)
    (hexecuted : o'.executedRedemptions = o.executedRedemptions + paid)
    (hcounter : o'.requestCounter = o.requestCounter) (hcreated : ∀ k', createdFor k' e = 0)
    (hfulfilled : ∀ k', fulfilledFor k' e = if k = k' then paid else 0)
    (hcancelled : ∀ k', cancelledFor k' e = if k = k' then returned else 0)
    (hparts : paid + returned = r.amount.toNat) :
    Balanced ⟨b.offers.insert k o', b.requests.erase p, e :: b.events⟩ := by
  constructor
  · intro k'
    have he := openAmount_erase (k := k') hopen
    have hreq := h.requested k'
    show fieldOf (b.offers.insert k o') _ k' = openAmount (b.requests.erase p) k'
    rw [fieldOf_insert]
    by_cases hk : k' = k
    · subst hk
      rw [if_pos hr] at he
      rw [fieldOf_stored _ ho] at hreq
      rw [if_pos rfl, hrequested]
      omega
    · rw [if_neg (hr ▸ Ne.symm hk)] at he
      rw [if_neg hk]
      exact hreq.trans he.symm
  · intro k'
    have hexec := h.executed k'
    rw [fieldOf_insert, sumOf_cons, hfulfilled]
    by_cases hk : k' = k
    · subst hk
      rw [fieldOf_stored _ ho] at hexec
      rw [if_pos rfl, if_pos rfl, hexecuted, ← hexec]
      exact Nat.add_comm _ _
    · rw [if_neg hk, if_neg (Ne.symm hk), Nat.zero_add]
      exact hexec
  · intro k'
    have he := openAmount_erase (k := k') hopen
    have hcons := h.conserved k'
    rw [hr] at he
    show _ = openAmount (b.requests.erase p) k' + _ + _
    rw [sumOf_cons, sumOf_cons, sumOf_cons, hcreated, hfulfilled, hcancelled]
    by_cases hk : k = k'
    · rw [if_pos hk] at he
      rw [if_pos hk, if_pos hk]
      omega
    · rw [if_neg hk] at he
      rw [if_neg hk, if_neg hk]
      omega
  · intro k'
    show _ ≤ fieldOf (b.offers.insert k o') _ k' * _
    rw [fieldOf_rewrite (·.requestCounter.toNat) ho (congrArg UInt64.toNat hcounter), sumOf_cons,
      hcreated, Nat.zero_add]
    exact h.bounded k'

/-- Every move keeps the balance. -/
theorem Balanced.move (h : Balanced b) (hm : BookMove b b') : Balanced b' := by
  cases hm with
  | idle => exact h
  | makeOffer fresh executed requested counter =>
    refine ⟨?_, ?_, h.conserved, ?_⟩
    · rw [fieldOf_fresh _ fresh requested]
      exact h.requested
    · rw [fieldOf_fresh _ fresh executed]
      exact h.executed
    · rw [fieldOf_fresh (·.requestCounter.toNat) fresh (congrArg UInt64.toNat counter)]
      exact h.bounded
  | @setFee k o fee stored =>
    have hfield : ∀ f : RedemptionOffer → ℕ, f { o with feeBasisPoints := fee } = f o →
        fieldOf (b.offers.insert k { o with feeBasisPoints := fee }) f = fieldOf b.offers f :=
      fun f hf => fieldOf_rewrite f stored hf
    exact ⟨hfield (·.requestedRedemptions) rfl ▸ h.requested,
      hfield (·.executedRedemptions) rfl ▸ h.executed, h.conserved,
      hfield (·.requestCounter.toNat) rfl ▸ h.bounded⟩
  | create stored fresh counter => exact h.create stored fresh counter
  | cancel stored isOpen offer requested =>
    exact h.resolve stored isOpen offer requested rfl rfl rfl (fun _ => rfl)
      (fun _ => (ite_self 0).symm) (fun _ => rfl) (Nat.zero_add _)
  | fulfill stored isOpen offer requested parts =>
    exact h.resolve stored isOpen offer requested rfl rfl rfl (fun _ => rfl)
      (fun _ => by rw [← parts]; rfl) (fun _ => (ite_self 0).symm) (Nat.add_zero _)

end Moves

/-! ## The checked arithmetic never fails -/

section Arithmetic

variable {b : Book} {k : RedemptionOfferPda} {o : RedemptionOffer} {p : RedemptionRequestPda}
  {r : RedemptionRequest}

theorem amount_le_openAmount (hopen : b.requests.lookup p = some r) (hr : r.offer = k) :
    r.amount.toNat ≤ openAmount b.requests k := by
  have hle := le_total hopen fun _ r => if r.offer = k then r.amount.toNat else 0
  rwa [if_pos hr] at hle

/-- An open request is part of what its offer counts as requested. -/
theorem Balanced.amount_le (h : Balanced b) (ho : b.offers.lookup k = some o)
    (hopen : b.requests.lookup p = some r) (hr : r.offer = k) :
    r.amount.toNat ≤ o.requestedRedemptions := by
  have hreq := h.requested k
  rw [fieldOf_stored _ ho] at hreq
  rw [hreq]
  exact amount_le_openAmount hopen hr

/-- All that 2^64 ids of 64-bit amounts can add up to fits in 128 bits. -/
theorem Balanced.created_lt (h : Balanced b) (k : RedemptionOfferPda) (amount : UInt64) :
    sumOf (createdFor k) b.events + amount.toNat < 2 ^ 128 := by
  have hb := h.bounded k
  have hcounter : fieldOf b.offers (·.requestCounter.toNat) k ≤ 2 ^ 64 - 1 := by
    unfold fieldOf
    cases b.offers.lookup k with
    | none => exact Nat.zero_le _
    | some o => exact Nat.le_sub_one_of_lt o.requestCounter.toNat_lt
  have hmul := Nat.mul_le_mul_right (2 ^ 64 - 1) hcounter
  have hamount := amount.toNat_lt
  omega

theorem Balanced.requested_lt (h : Balanced b) (ho : b.offers.lookup k = some o)
    (amount : UInt64) : o.requestedRedemptions + amount.toNat < 2 ^ 128 := by
  have hreq := h.requested k
  have hcons := h.conserved k
  have hlt := h.created_lt k amount
  rw [fieldOf_stored _ ho] at hreq
  omega

theorem Balanced.executed_lt (h : Balanced b) (ho : b.offers.lookup k = some o)
    (amount : UInt64) : o.executedRedemptions + amount.toNat < 2 ^ 128 := by
  have hexec := h.executed k
  have hcons := h.conserved k
  have hlt := h.created_lt k amount
  rw [fieldOf_stored _ ho] at hexec
  omega

end Arithmetic

section Errors

variable {env : Env} {w : World} (h : Balanced (bookOf w))
include h

/-- Creating a request overflows only where the offer has given out all its ids. -/
theorem createRedemptionRequest_overflow {ctx : CreateRedemptionRequest} {amount : UInt64}
    (hids : ∀ o, w.redemptionOffers.lookup ctx.redemptionOffer = some o →
      o.requestCounter.toNat + 1 < 2 ^ 64) :
    Avoids (.createRedemptionRequest .arithmeticOverflow)
      (createRedemptionRequest env ctx amount w) := by
  refine avoids_bind (avoids_okOr _ nofun) fun _ _ => ?_
  refine avoids_bind (avoids_require _ nofun) fun _ _ => ?_
  refine avoids_bind (loadSeededRedemptionOffer_avoids fun _ => nofun) fun o ho => ?_
  have hstored := (loadSeededRedemptionOffer_eq_ok.mp ho).1
  refine avoids_bind (avoids_require _ nofun) fun _ _ => ?_
  refine avoids_bind (Ledger.loadMint_avoids nofun) fun _ _ => ?_
  refine avoids_bind (avoids_require _ nofun) fun _ _ => ?_
  refine avoids_bind (Ledger.loadAta_avoids nofun) fun _ _ => ?_
  refine avoids_bind (Ledger.loadAta_avoids nofun) fun _ _ => ?_
  refine avoids_bind (avoids_require _ nofun) fun _ _ => ?_
  refine avoids_bind (Ledger.transferChecked_avoids nofun) fun _ _ => ?_
  refine avoids_bind (avoids_okOr_of_some
    (checkedAdd_eq_some.mpr ⟨h.requested_lt hstored amount, rfl⟩) _ _) fun _ _ => ?_
  refine avoids_bind (avoids_okOr_of_some
    (checkedAdd_eq_some.mpr ⟨hids o hstored, rfl⟩) _ _) fun _ _ => ?_
  exact avoids_pure _ _

theorem cancelRedemptionRequest_underflow {ctx : CancelRedemptionRequest} :
    Avoids (.cancelRedemptionRequest .arithmeticUnderflow)
      (cancelRedemptionRequest env ctx w) := by
  refine avoids_bind (avoids_okOr _ nofun) fun _ _ => ?_
  refine avoids_bind (avoids_require _ nofun) fun _ _ => ?_
  refine avoids_bind (loadSeededRedemptionOffer_avoids fun _ => nofun) fun o ho => ?_
  refine avoids_bind (loadSeededRedemptionRequest_avoids fun _ => nofun) fun r hr => ?_
  refine avoids_bind (avoids_require _ nofun) fun _ hro => ?_
  have hle : r.amount.toNat ≤ o.requestedRedemptions :=
    h.amount_le (loadSeededRedemptionOffer_eq_ok.mp ho).1
      (loadSeededRedemptionRequest_eq_ok.mp hr).1 ((require_eq_ok _ _ _).mp hro)
  refine avoids_bind (avoids_require _ nofun) fun _ _ => ?_
  refine avoids_bind (avoids_require _ nofun) fun _ _ => ?_
  refine avoids_bind (avoids_require _ nofun) fun _ _ => ?_
  refine avoids_bind (avoids_require _ nofun) fun _ _ => ?_
  refine avoids_bind (avoids_require _ nofun) fun _ _ => ?_
  refine avoids_bind (Ledger.loadMint_avoids nofun) fun _ _ => ?_
  refine avoids_bind (avoids_require _ nofun) fun _ _ => ?_
  refine avoids_bind (Ledger.loadAta_avoids nofun) fun _ _ => ?_
  refine avoids_bind (Ledger.initIfNeeded_avoids nofun) fun _ _ => ?_
  refine avoids_bind (Ledger.transferChecked_avoids nofun) fun _ _ => ?_
  refine avoids_bind (avoids_okOr_of_some (checkedSub_eq_some.mpr ⟨hle, rfl⟩) _ _) fun _ _ => ?_
  exact avoids_pure _ _

theorem fulfillRedemptionRequest_arithmetic {ctx : FulfillRedemptionRequest}
    {code : FulfillRedemptionRequestErrorCode}
    (hcode : code = .arithmeticOverflow ∨ code = .arithmeticUnderflow) :
    Avoids (.fulfillRedemptionRequest code) (fulfillRedemptionRequest env ctx w) := by
  have hne : ∀ c, c ≠ .arithmeticOverflow → c ≠ .arithmeticUnderflow →
      Error.fulfillRedemptionRequest c ≠ .fulfillRedemptionRequest code := by
    intro c ho hu he
    cases he
    exact hcode.elim ho hu
  refine avoids_bind (avoids_okOr _ nofun) fun _ _ => ?_
  refine avoids_bind (avoids_require _ (hne _ nofun nofun)) fun _ _ => ?_
  refine avoids_bind (avoids_require _ (hne _ nofun nofun)) fun _ _ => ?_
  refine avoids_bind (avoids_okOr _ nofun) fun _ _ => ?_
  refine avoids_bind (loadSeededRedemptionOffer_avoids fun _ => nofun) fun o ho => ?_
  refine avoids_bind (avoids_require _ (hne _ nofun nofun)) fun _ _ => ?_
  refine avoids_bind (loadSeededRedemptionRequest_avoids fun _ => nofun) fun r hr => ?_
  refine avoids_bind (avoids_require _ (hne _ nofun nofun)) fun _ hro => ?_
  have hstored := (loadSeededRedemptionOffer_eq_ok.mp ho).1
  have hle : r.amount.toNat ≤ o.requestedRedemptions :=
    h.amount_le hstored (loadSeededRedemptionRequest_eq_ok.mp hr).1 ((require_eq_ok _ _ _).mp hro)
  refine avoids_bind (Ledger.loadAta_avoids nofun) fun _ _ => ?_
  refine avoids_bind (Ledger.loadAta_avoids nofun) fun _ _ => ?_
  refine avoids_bind (Ledger.loadMint_avoids nofun) fun _ _ => ?_
  refine avoids_bind (avoids_require _ (hne _ nofun nofun)) fun _ _ => ?_
  refine avoids_bind (Ledger.loadMint_avoids nofun) fun _ _ => ?_
  refine avoids_bind (avoids_require _ (hne _ nofun nofun)) fun _ _ => ?_
  refine avoids_bind (Ledger.initIfNeeded_avoids nofun) fun _ _ => ?_
  refine avoids_bind (Ledger.initIfNeeded_avoids nofun) fun _ _ => ?_
  refine avoids_bind (avoids_require _ (hne _ nofun nofun)) fun _ _ => ?_
  refine avoids_bind (avoids_require _ (hne _ nofun nofun)) fun _ _ => ?_
  refine avoids_bind (processRedemptionCore_avoids (currentPrice_avoids nofun fun _ => nofun) nofun
    (fun _ => nofun) fun _ => nofun) fun _ _ => ?_
  refine avoids_bind (executeRedemptionOperations_avoids nofun (fun _ => nofun) fun _ => nofun)
    fun _ _ => ?_
  refine avoids_bind (avoids_okOr_of_some
    (checkedAdd_eq_some.mpr ⟨h.executed_lt hstored r.amount, rfl⟩) _ _) fun _ _ => ?_
  refine avoids_bind (avoids_okOr_of_some (checkedSub_eq_some.mpr ⟨hle, rfl⟩) _ _) fun _ _ => ?_
  exact avoids_pure _ _

end Errors

/-! ## Every reachable state -/

/-- No redemption has been set up yet. -/
structure NoRedemptions (w : World) : Prop where
  offers : w.redemptionOffers = ∅
  requests : w.redemptionRequests = ∅
  events : w.events = []

theorem registered_of_empty {w : World} (h : NoRedemptions w) : Registered (bookOf w) := by
  have hb : bookOf w = ⟨∅, ∅, []⟩ := by rw [bookOf, h.offers, h.requests, h.events]
  rw [hb]
  refine ⟨?_, ?_, List.nodup_nil, List.nodup_nil, ?_, ?_⟩
  · intro p r hr
    cases hr
  · intro c hc
    exact absurd hc List.not_mem_nil
  · intro c hc
    exact absurd hc List.not_mem_nil
  · intro p n
    exact iff_of_false (fun hr => nomatch hr.choose_spec.1) fun hm => List.not_mem_nil hm.1

theorem balanced_of_empty {w : World} (h : NoRedemptions w) : Balanced (bookOf w) := by
  have hb : bookOf w = ⟨∅, ∅, []⟩ := by rw [bookOf, h.offers, h.requests, h.events]
  rw [hb]
  exact ⟨fun _ => rfl, fun _ => rfl, fun _ => rfl, fun _ => Nat.zero_le _⟩

theorem registered_run {w : World} (h : NoRedemptions w) (actions : List Action) :
    Registered (bookOf (run step w actions)) :=
  run_preserves (P := fun w => Registered (bookOf w)) (registered_of_empty h)
    (fun _ _ _ hr hs => hr.move (bookMove_of_effect (execute_effect hs))) actions

theorem balanced_run {w : World} (h : NoRedemptions w) (actions : List Action) :
    Balanced (bookOf (run step w actions)) :=
  run_preserves (P := fun w => Balanced (bookOf w)) (balanced_of_empty h)
    (fun _ _ _ hb hs => hb.move (bookMove_of_effect (execute_effect hs))) actions

/-- Any run of the program, from a state without redemptions: every offer's counters are the
sums of its open and its fulfilled requests, every request is created once and resolved at
most once, an instruction writes only the offer it names, and no checked sum or difference
of the counters ever fails. -/
theorem redemption_accounting_exact {w₀ : World} (h₀ : NoRedemptions w₀) (actions : List Action) :
    let w := run step w₀ actions
    (∀ k o, w.redemptionOffers.lookup k = some o →
      o.requestedRedemptions = openAmount w.redemptionRequests k ∧
      o.executedRedemptions = sumOf (fulfilledFor k) w.events ∧
      sumOf (createdFor k) w.events = openAmount w.redemptionRequests k +
        sumOf (fulfilledFor k) w.events + sumOf (cancelledFor k) w.events ∧
      (∀ p r, w.redemptionRequests.lookup p = some r → r.offer = k →
        p = ⟨k, r.requestId⟩ ∧ r.requestId < o.requestCounter) ∧
      ∀ amount : UInt64, o.requestedRedemptions + amount.toNat < 2 ^ 128 ∧
        o.executedRedemptions + amount.toNat < 2 ^ 128) ∧
    ((named (creations w.events)).Nodup ∧ (named (resolutions w.events)).Nodup ∧
      (∀ c ∈ resolutions w.events, c ∈ creations w.events) ∧
      ∀ p n, (∃ r, w.redemptionRequests.lookup p = some r ∧ r.amount.toNat = n) ↔
        (p, n) ∈ creations w.events ∧ p ∉ named (resolutions w.events)) ∧
    (∀ (a : Action) k, redemptionOfferOf a.instruction ≠ some k →
      (exec step w a).redemptionOffers.lookup k = w.redemptionOffers.lookup k) ∧
    ∀ env,
      (∀ ctx amount, (∀ o, w.redemptionOffers.lookup ctx.redemptionOffer = some o →
        o.requestCounter.toNat + 1 < 2 ^ 64) →
        createRedemptionRequest env ctx amount w ≠
          .error (.createRedemptionRequest .arithmeticOverflow)) ∧
      (∀ ctx, cancelRedemptionRequest env ctx w ≠
        .error (.cancelRedemptionRequest .arithmeticUnderflow)) ∧
      ∀ ctx, fulfillRedemptionRequest env ctx w ≠
          .error (.fulfillRedemptionRequest .arithmeticOverflow) ∧
        fulfillRedemptionRequest env ctx w ≠
          .error (.fulfillRedemptionRequest .arithmeticUnderflow) := by
  intro w
  have hr : Registered (bookOf w) := registered_run h₀ actions
  have hb : Balanced (bookOf w) := balanced_run h₀ actions
  refine ⟨?_, ⟨hr.created_once, hr.resolved_once, hr.resolved_created, hr.open_iff⟩, ?_, ?_⟩
  · intro k o ho
    refine ⟨?_, ?_, hb.conserved k, ?_, ?_⟩
    · exact (fieldOf_stored (·.requestedRedemptions) ho).symm.trans (hb.requested k)
    · exact (fieldOf_stored (·.executedRedemptions) ho).symm.trans (hb.executed k)
    · intro p r hopen hro
      have hp : p = ⟨k, r.requestId⟩ := hro ▸ hr.seeded p r hopen
      have hlt := hr.id_lt _ ((hr.open_iff p _).mp ⟨r, hopen, rfl⟩).1
      rw [hp] at hlt
      exact ⟨hp, UInt64.lt_iff_toNat_lt.mpr
        (hlt.trans_eq (fieldOf_stored (·.requestCounter.toNat) ho))⟩
    · intro amount
      exact ⟨hb.requested_lt ho amount, hb.executed_lt ho amount⟩
  · intro a k hk
    refine exec_preserves (P := fun w' : World =>
      w'.redemptionOffers.lookup k = w.redemptionOffers.lookup k) rfl fun w' hs => ?_
    exact redemptionOffer_of_not_named (execute_effect hs) hk
  · intro env
    refine ⟨fun ctx amount hids => ?_, fun ctx => ?_, fun ctx => ⟨?_, ?_⟩⟩
    · exact createRedemptionRequest_overflow hb hids
    · exact cancelRedemptionRequest_underflow hb
    · exact fulfillRedemptionRequest_arithmetic hb (.inl rfl)
    · exact fulfillRedemptionRequest_arithmetic hb (.inr rfl)

/-- Alice's request is fulfilled and Bob's stays open: what was created for either offer is
what the theorem says. -/
theorem redemption_accounting_exact_sample :
    let w := run step (World.genesis (Sample.ledger Sample.issuer))
      (Sample.setup ++ [Sample.aliceRequests, Sample.bobRequests, Sample.fulfillAlice])
    sumOf (createdFor ⟨Sample.usdc, Sample.onyc⟩) w.events = 600000 ∧
      w.redemptionOffers.lookup ⟨Sample.onyc, Sample.usdc⟩ =
        some ⟨⟨Sample.usdc, Sample.onyc⟩, Sample.onyc, Sample.usdc, 500000000, 0, 0, 1⟩ ∧
      500000000 = sumOf (fulfilledFor ⟨Sample.onyc, Sample.usdc⟩) w.events ∧
      (named (resolutions w.events)).Nodup := by
  intro w
  have hnone : NoRedemptions (World.genesis (Sample.ledger Sample.issuer)) := ⟨rfl, rfl, rfl⟩
  obtain ⟨hoffers, ⟨_, honce, _⟩, _⟩ := redemption_accounting_exact hnone
    (Sample.setup ++ [Sample.aliceRequests, Sample.bobRequests, Sample.fulfillAlice])
  have hstored : w.redemptionOffers.lookup ⟨Sample.onyc, Sample.usdc⟩ =
      some ⟨⟨Sample.usdc, Sample.onyc⟩, Sample.onyc, Sample.usdc, 500000000, 0, 0, 1⟩ := by
    decide +kernel
  exact ⟨by decide +kernel, hstored, (hoffers _ _ hstored).2.1, honce⟩

end OnreApp.Redemption
