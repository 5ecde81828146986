import OnreApp.Program.Effects

/-!
# The redemption book

The part of the world that redemption accounting is about: the redemption offers, the open
requests and the events. Whatever instruction is executed, the book makes one of six moves.
-/
namespace OnreApp.Redemption

open Library.Checked Library.FiniteStore Library.Outcome Program Tokens Utils

structure Book where
  offers : Store RedemptionOfferPda RedemptionOffer
  requests : Store RedemptionRequestPda RedemptionRequest
  /-- Latest first. -/
  events : List RedemptionEvent

/-- The book of a world. -/
def bookOf (w : World) : Book := ⟨w.redemptionOffers, w.redemptionRequests, w.events⟩

inductive BookMove (b : Book) : Book → Prop
  | idle : BookMove b b
  | makeOffer {k : RedemptionOfferPda} {o : RedemptionOffer} (fresh : b.offers.lookup k = none)
    (executed : o.executedRedemptions = 0) (requested : o.requestedRedemptions = 0)
    (counter : o.requestCounter = 0) : BookMove b { b with offers := b.offers.insert k o }
  | setFee {k : RedemptionOfferPda} {o : RedemptionOffer} {fee : UInt16}
    (stored : b.offers.lookup k = some o) :
    BookMove b { b with offers := b.offers.insert k { o with feeBasisPoints := fee } }
  | create {k : RedemptionOfferPda} {o : RedemptionOffer} {redeemer : Signer} {amount : UInt64}
    (stored : b.offers.lookup k = some o) (fresh : b.requests.lookup ⟨k, o.requestCounter⟩ = none)
    (counter : o.requestCounter.toNat + 1 < 2 ^ 64) :
    BookMove b
      { offers := b.offers.insert k (RedemptionOffer.request o amount)
        requests := b.requests.insert ⟨k, o.requestCounter⟩ ⟨k, o.requestCounter, redeemer, amount⟩
        events := .created ⟨k, o.requestCounter⟩ k redeemer.key amount o.requestCounter ::
          b.events }
  | cancel {k : RedemptionOfferPda} {o : RedemptionOffer} {r : RedemptionRequest} {by' : Pubkey}
    (stored : b.offers.lookup k = some o) (isOpen : b.requests.lookup ⟨k, r.requestId⟩ = some r)
    (offer : r.offer = k) (requested : r.amount.toNat ≤ o.requestedRedemptions) :
    BookMove b
      { offers := b.offers.insert k (RedemptionOffer.cancel o r.amount)
        requests := b.requests.erase ⟨k, r.requestId⟩
        events := .cancelled ⟨k, r.requestId⟩ k r.redeemer.key r.amount by' :: b.events }
  | fulfill {k : RedemptionOfferPda} {o : RedemptionOffer} {r : RedemptionRequest}
    {net fee tokenOut price : UInt64} (stored : b.offers.lookup k = some o)
    (isOpen : b.requests.lookup ⟨k, r.requestId⟩ = some r) (offer : r.offer = k)
    (requested : r.amount.toNat ≤ o.requestedRedemptions)
    (parts : net.toNat + fee.toNat = r.amount.toNat) :
    BookMove b
      { offers := b.offers.insert k (RedemptionOffer.fulfill o r.amount)
        requests := b.requests.erase ⟨k, r.requestId⟩
        events := .fulfilled ⟨k, r.requestId⟩ k r.redeemer.key net fee tokenOut price :: b.events }

/-- The net amount and the fee of a redemption are the two parts of what was requested. -/
theorem processRedemptionCore_parts {env : Env} {offer : Offer} {amount : UInt64}
    {tokenIn tokenOut : MintAccount} {bps : UInt16} {result : RedemptionProcessResult}
    (h : processRedemptionCore env offer amount tokenIn tokenOut bps = .ok result) :
    result.tokenInNetAmount.toNat + result.tokenInFeeAmount.toNat = amount.toNat := by
  simp only [processRedemptionCore, bind_eq_ok, pure_eq_ok] at h
  obtain ⟨_, _, fees, hfees, _, _, rfl⟩ := h
  exact calculateFees_total hfees

variable {env : Env} {i : Instruction} {w w' : World}

/-- Every instruction makes a move of the book. -/
theorem bookMove_of_effect (h : Effect env i w w') : BookMove (bookOf w) (bookOf w') := by
  cases h with
  | view | initialized | govern | acceptBoss | kill | close | namePermissionless | makeOffer
  | editOffer | deposit | withdraw | mintTo | setMintAuthority | take => exact .idle
  | makeRedemptionOffer _ _ _ fresh => exact .makeOffer fresh rfl rfl rfl
  | updateRedemptionOfferFee _ _ _ offer => exact .setFee offer
  | createRequest _ hc =>
    rw [hc.result]
    exact .create hc.offer_stored hc.fresh hc.counter
  | cancelRequest _ hc =>
    have hopen := hc.request_stored
    rw [hc.request_seeds] at hopen
    rw [hc.result, hc.request_seeds]
    exact .cancel hc.offer_stored hopen hc.request_offer hc.requested
  | fulfillRequest _ hf =>
    have hopen := hf.request_stored
    rw [hf.request_seeds] at hopen
    rw [hf.outcome, hf.request_seeds, hf.redeemer]
    exact .fulfill hf.offer_stored hopen hf.request_offer hf.requested
      (processRedemptionCore_parts hf.priced)

/-! ## The offer an instruction names -/

/-- The redemption offer an instruction makes, or names as one of its accounts. -/
def redemptionOfferOf : Instruction → Option RedemptionOfferPda
  | .makeRedemptionOffer ctx _ => some ctx.redemptionOfferPda
  | .updateRedemptionOfferFee ctx _ => some ctx.redemptionOffer
  | .createRedemptionRequest ctx _ => some ctx.redemptionOffer
  | .cancelRedemptionRequest ctx => some ctx.redemptionOffer
  | .fulfillRedemptionRequest ctx => some ctx.redemptionOffer
  | _ => none

/-- No instruction writes a redemption offer it does not name. -/
theorem redemptionOffer_of_not_named (h : Effect env i w w') {k : RedemptionOfferPda}
    (hk : redemptionOfferOf i ≠ some k) :
    w'.redemptionOffers.lookup k = w.redemptionOffers.lookup k := by
  have hinsert : ∀ {k' : RedemptionOfferPda} {o : RedemptionOffer}, k' ≠ k →
      (w.redemptionOffers.insert k' o).lookup k = w.redemptionOffers.lookup k :=
    fun hne => (lookup_insert_eq _ _ _ _).trans (if_neg hne.symm)
  cases h with
  | view | initialized | govern | acceptBoss | kill | close | namePermissionless | makeOffer
  | editOffer | deposit | withdraw | mintTo | setMintAuthority | take => rfl
  | makeRedemptionOffer instr | updateRedemptionOfferFee instr =>
    subst instr
    exact hinsert fun he => hk (congrArg some he)
  | createRequest instr hc =>
    subst instr
    rw [hc.result]
    exact hinsert fun he => hk (congrArg some he)
  | cancelRequest instr hc =>
    subst instr
    rw [hc.result]
    exact hinsert fun he => hk (congrArg some he)
  | fulfillRequest instr hf =>
    subst instr
    rw [hf.outcome]
    exact hinsert fun he => hk (congrArg some he)

/-! ## The request an instruction resolves -/

def resolvedRequest : Instruction → Option RedemptionRequestPda
  | .cancelRedemptionRequest ctx => some ctx.redemptionRequest
  | .fulfillRedemptionRequest ctx => some ctx.redemptionRequest
  | _ => none

/-- An instruction leaves the requests alone, makes one, or resolves one. -/
theorem requests_cases (h : Effect env i w w') :
    w'.redemptionRequests = w.redemptionRequests ∨
    (∃ ctx amount id, i = .createRedemptionRequest ctx amount ∧
      w.redemptionRequests.lookup ⟨ctx.redemptionOffer, id⟩ = none ∧
      w'.redemptionRequests = w.redemptionRequests.insert ⟨ctx.redemptionOffer, id⟩
        ⟨ctx.redemptionOffer, id, ctx.redeemer, amount⟩) ∨
    ∃ q, resolvedRequest i = some q ∧ w'.redemptionRequests = w.redemptionRequests.erase q := by
  cases h with
  | view | initialized | govern | acceptBoss | kill | close | namePermissionless | makeOffer
  | editOffer | deposit | withdraw | mintTo | setMintAuthority | take | makeRedemptionOffer
  | updateRedemptionOfferFee => exact .inl rfl
  | createRequest instr hc =>
    exact .inr (.inl ⟨_, _, _, instr, hc.fresh, congrArg World.redemptionRequests hc.result⟩)
  | cancelRequest instr hc =>
    subst instr
    exact .inr (.inr ⟨_, rfl, congrArg World.redemptionRequests hc.result⟩)
  | fulfillRequest instr hf =>
    subst instr
    exact .inr (.inr ⟨_, rfl, congrArg World.redemptionRequests hf.outcome⟩)

/-- A request found after an instruction was there before, or was just made. -/
theorem request_origin (h : Effect env i w w') {q : RedemptionRequestPda} {r : RedemptionRequest}
    (hr : w'.redemptionRequests.lookup q = some r) : w.redemptionRequests.lookup q = some r ∨
      ∃ ctx, i = .createRedemptionRequest ctx r.amount ∧ ctx.redeemer = r.redeemer ∧
        ctx.redemptionOffer = r.offer := by
  rcases requests_cases h with he | ⟨ctx, amount, id, hi, _, he⟩ | ⟨q', _, he⟩
  · exact .inl (he ▸ hr)
  · rw [he, lookup_insert_eq] at hr
    split at hr
    · cases Option.some.inj hr
      exact .inr ⟨ctx, hi, rfl, rfl⟩
    · exact .inl hr
  · rw [he, lookup_erase_eq] at hr
    split at hr
    · cases hr
    · exact .inl hr

/-- A request stays as it is until an instruction resolves it. -/
theorem request_kept (h : Effect env i w w') {q : RedemptionRequestPda} {r : RedemptionRequest}
    (hr : w.redemptionRequests.lookup q = some r) (hq : resolvedRequest i ≠ some q) :
    w'.redemptionRequests.lookup q = some r := by
  rcases requests_cases h with he | ⟨ctx, amount, id, _, hfresh, he⟩ | ⟨q', hres, he⟩
  · rw [he, hr]
  · have hne : q ≠ ⟨ctx.redemptionOffer, id⟩ := by
      intro heq
      rw [heq, hfresh] at hr
      cases hr
    rw [he, lookup_insert_eq, if_neg hne, hr]
  · have hne : q ≠ q' := by
      intro heq
      exact hq (by rw [heq, hres])
    rw [he, lookup_erase_eq, if_neg hne, hr]

end OnreApp.Redemption
