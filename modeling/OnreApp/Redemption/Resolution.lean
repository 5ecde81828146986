import OnreApp.Program.FeeCeiling
import OnreApp.Redemption.Accounting
import OnreApp.Redemption.Settlement

/-!
# Who a request pays

A request is resolved with its own offer, its own mints and its own redeemer, or not at all:
the accounts passed have no say. What it pays is the amount it was made with, or what that
amount is worth at the price of the offer for the inverted pair.
-/
namespace OnreApp.Redemption

open Library.FiniteStore Library.Run Offers Program Tokens Utils

/-- The accounts of a cancellation are those of the request, and the signer is its redeemer,
the redemption admin or the boss. -/
structure CancelAccounts (ctx : CancelRedemptionRequest) (s : State) (o : RedemptionOffer)
    (r : RedemptionRequest) : Prop where
  redemptionOffer : ctx.redemptionOffer = r.offer
  tokenIn : ctx.tokenInMint = o.tokenInMint
  redeemer : ctx.redeemer = r.redeemer.key
  signer : ctx.signer = r.redeemer ∨ ctx.signer.key = s.redemptionAdmin ∨ ctx.signer = s.boss

/-- The accounts of a fulfillment are those of the request, and the redemption admin signs. -/
structure FulfillAccounts (ctx : FulfillRedemptionRequest) (s : State) (o : RedemptionOffer)
    (r : RedemptionRequest) : Prop where
  redemptionOffer : ctx.redemptionOffer = r.offer
  offer : ctx.offer = ⟨o.tokenOutMint, o.tokenInMint⟩
  tokenIn : ctx.tokenInMint = o.tokenInMint
  tokenOut : ctx.tokenOutMint = o.tokenOutMint
  redeemer : ctx.redeemer = r.redeemer.key
  boss : ctx.boss = s.boss.key
  redemptionAdmin : ctx.redemptionAdmin.key = s.redemptionAdmin

/-- A redemption offer lies at the address of its pair, and redeems at the offer for the inverted
pair. -/
structure Inverts (k : RedemptionOfferPda) (o : RedemptionOffer) : Prop where
  seeds : k = ⟨o.tokenInMint, o.tokenOutMint⟩
  underlying : o.offer = ⟨o.tokenOutMint, o.tokenInMint⟩

/-- The run contains the instruction by which its redeemer made the request. -/
def MadeIn (l : Ledger) (actions : List Action) (q : RedemptionRequestPda)
    (r : RedemptionRequest) : Prop :=
  ∃ pre env ctx post w', actions = pre ++ ⟨env, .createRedemptionRequest ctx r.amount⟩ :: post ∧
    ctx.redeemer = r.redeemer ∧ ctx.redemptionOffer = r.offer ∧
    createRedemptionRequest env ctx r.amount (run step (World.genesis l) pre) = .ok w' ∧
    w'.redemptionRequests.lookup q = some r

/-- What the next instruction can do with an open request. -/
structure Honored (w : World) (q : RedemptionRequestPda) (o : RedemptionOffer)
    (r : RedemptionRequest) : Prop where
  cancel : ∀ env ctx w', ctx.redemptionRequest = q → cancelRedemptionRequest env ctx w = .ok w' →
    (∃ s, w.state = some s ∧ CancelAccounts ctx s o r) ∧
    CancelPays (redemptionVault o.tokenInMint ctx.tokenProgram)
      ⟨r.redeemer.key, o.tokenInMint, ctx.tokenProgram⟩ r.amount.toNat w.ledger w'.ledger ∧
    w'.redemptionRequests = w.redemptionRequests.erase q
  fulfill : ∀ env ctx w', ctx.redemptionRequest = q →
    fulfillRedemptionRequest env ctx w = .ok w' →
    (∃ s, w.state = some s ∧ FulfillAccounts ctx s o r) ∧
    (o.tokenInMint ≠ o.tokenOutMint → ∃ offer tokenIn tokenOut,
      w.offers.lookup ⟨o.tokenOutMint, o.tokenInMint⟩ = some offer ∧
      w.ledger.mints.lookup o.tokenInMint = some tokenIn ∧
      w.ledger.mints.lookup o.tokenOutMint = some tokenOut ∧
      FulfillPays ctx r.amount.toNat (netOf r.amount.toNat o.feeBasisPoints.toNat)
        (feeOf r.amount.toNat o.feeBasisPoints.toNat)
        (redeemedFor r.amount.toNat o.feeBasisPoints.toNat (exactPrice offer env.now)
          tokenIn.decimals.toNat tokenOut.decimals.toNat) w.ledger w'.ledger) ∧
    w'.redemptionRequests = w.redemptionRequests.erase q
  otherwise : ∀ a w', step a w = .ok w' → resolvedRequest a.instruction ≠ some q →
    w'.redemptionRequests.lookup q = some r

/-! ## One instruction -/

section Step

variable {env : Env} {w w' : World} {s : State} {o : RedemptionOffer} {r : RedemptionRequest}
  {l₁ l₂ l₃ : Ledger}

theorem RequestCancelled.accounts {ctx : CancelRedemptionRequest}
    (h : RequestCancelled env ctx w w' s o r l₁ l₂) : CancelAccounts ctx s o r where
  redemptionOffer := h.request_offer.symm
  tokenIn := h.tokenIn
  redeemer := h.redeemer
  signer := by
    rcases h.authorized with hboss | hadmin | hredeemer
    · exact .inr (.inr hboss)
    · exact .inr (.inl hadmin)
    · exact .inl hredeemer

theorem RequestFulfilled.accounts {ctx : FulfillRedemptionRequest} {offer : Offer}
    {tokenIn tokenOut : MintAccount} {result : RedemptionProcessResult}
    (h : RequestFulfilled env ctx w w' s offer o r tokenIn tokenOut result l₁ l₂ l₃)
    (hunder : o.offer = ⟨o.tokenOutMint, o.tokenInMint⟩) : FulfillAccounts ctx s o r where
  redemptionOffer := h.request_offer.symm
  offer := h.underlying.symm.trans hunder
  tokenIn := h.tokenIn_offer
  tokenOut := h.tokenOut_offer
  redeemer := h.redeemer
  boss := h.boss.symm
  redemptionAdmin := h.authorized

/-- Only an open request is resolved. -/
theorem open_of_resolved {a : Action} {q : RedemptionRequestPda} (hs : step a w = .ok w')
    (hq : resolvedRequest a.instruction = some q) :
    ∃ r, w.redemptionRequests.lookup q = some r := by
  obtain ⟨env, i⟩ := a
  cases i with
  | cancelRedemptionRequest ctx =>
    obtain ⟨_, _, r, _, _, hc⟩ := cancelRedemptionRequest_ok hs
    cases hq
    exact ⟨r, hc.request_stored⟩
  | fulfillRedemptionRequest ctx =>
    obtain ⟨_, _, _, r, _, _, _, _, _, _, hf⟩ := fulfillRedemptionRequest_ok hs
    cases hq
    exact ⟨r, hf.request_stored⟩
  | _ => cases hq

/-- An open request of a stored offer is honored, whatever instruction comes next. -/
theorem honored_of_open {q : RedemptionRequestPda} (hexact : w.ledger.Exact)
    (ho : w.redemptionOffers.lookup r.offer = some o)
    (hunder : o.offer = ⟨o.tokenOutMint, o.tokenInMint⟩)
    (hfee : o.feeBasisPoints.toNat ≤ maxBasisPoints)
    (hr : w.redemptionRequests.lookup q = some r) : Honored w q o r where
  cancel := by
    intro env ctx w' hq h
    obtain ⟨s, o', r', l₁, l₂, hc⟩ := cancelRedemptionRequest_ok h
    have hstored := hc.request_stored
    rw [hq, hr] at hstored
    cases hstored
    have hoffer := hc.offer_stored
    rw [← hc.request_offer, ho] at hoffer
    cases hoffer
    have hpays := hc.pays hexact
    rw [hc.tokenIn, hc.redeemer] at hpays
    refine ⟨⟨s, hc.state_stored, hc.accounts⟩, hpays, ?_⟩
    rw [hc.result, ← hq]
  fulfill := by
    intro env ctx w' hq h
    obtain ⟨s, offer, o', r', tokenIn, tokenOut, result, l₁, l₂, l₃, hf⟩ :=
      fulfillRedemptionRequest_ok h
    have hstored := hf.request_stored
    rw [hq, hr] at hstored
    cases hstored
    have hoffer := hf.offer_stored
    rw [← hf.request_offer, ho] at hoffer
    cases hoffer
    refine ⟨⟨s, hf.state_stored, hf.accounts hunder⟩, ?_, ?_⟩
    · intro hmints
      refine ⟨offer, tokenIn.toMint, tokenOut.toMint, ?_, ?_, ?_, ?_⟩
      · rw [← hunder, hf.underlying]
        exact hf.underlying_stored
      · rw [← hf.tokenIn_offer]
        exact hf.tokenIn
      · rw [← hf.tokenOut_offer]
        exact hf.tokenOut
      · apply hf.pays hexact _ hfee
        rw [hf.tokenIn_offer, hf.tokenOut_offer]
        exact hmints
    · rw [hf.outcome, ← hq]
  otherwise := by
    intro a w' hs hq
    obtain ⟨env, i⟩ := a
    exact request_kept (execute_effect hs) hr hq

end Step

/-! ## Every reachable state -/

theorem noRedemptions_genesis (l : Ledger) : NoRedemptions (World.genesis l) := ⟨rfl, rfl, rfl⟩

theorem inverts_run (l : Ledger) (actions : List Action) {k : RedemptionOfferPda}
    {o : RedemptionOffer}
    (ho : (run step (World.genesis l) actions).redemptionOffers.lookup k = some o) :
    Inverts k o := by
  refine redemptionOffers_invariant (Q := Inverts)
    (fun k o ho => absurd ho (World.genesis_redemptionOffers l k o)) ?_ ?_ actions k o ho
  · intro ctx fee _
    exact ⟨rfl, rfl⟩
  · intro k o o' hedit hinv
    constructor
    · rw [hedit.tokenIn, hedit.tokenOut]
      exact hinv.seeds
    · rw [hedit.offer, hedit.tokenIn, hedit.tokenOut]
      exact hinv.underlying

/-- An open request lies at its own address, and its offer is stored. -/
theorem offer_of_open (l : Ledger) (actions : List Action) {q : RedemptionRequestPda}
    {r : RedemptionRequest}
    (hr : (run step (World.genesis l) actions).redemptionRequests.lookup q = some r) :
    q = ⟨r.offer, r.requestId⟩ ∧
      ∃ o, (run step (World.genesis l) actions).redemptionOffers.lookup r.offer = some o := by
  have hreg := registered_run (noRedemptions_genesis l) actions
  have hseeds : q = ⟨r.offer, r.requestId⟩ := hreg.seeded q r hr
  have hcreated := ((hreg.open_iff q _).mp ⟨r, hr, rfl⟩).1
  have hlt := hreg.id_lt _ hcreated
  refine ⟨hseeds, ?_⟩
  rw [hseeds] at hlt
  cases ho : (run step (World.genesis l) actions).redemptionOffers.lookup r.offer with
  | some o => exact ⟨o, rfl⟩
  | none =>
    -- The counter of an offer that is not stored is zero.
    rw [fieldOf, bookOf, ho] at hlt
    exact absurd hlt (Nat.not_lt_zero _)

theorem madeIn_of_open (l : Ledger) (actions : List Action) {q : RedemptionRequestPda}
    {r : RedemptionRequest}
    (hr : (run step (World.genesis l) actions).redemptionRequests.lookup q = some r) :
    MadeIn l actions q r := by
  have hinit : ¬ (World.genesis l).redemptionRequests.lookup q = some r := by
    intro h
    cases h
  obtain ⟨pre, a, post, w', he, hbefore, hs, hafter⟩ := exists_action_of_run
    (P := fun w : World => w.redemptionRequests.lookup q = some r) hinit hr
  obtain ⟨env, i⟩ := a
  rcases request_origin (execute_effect hs) hafter with hold | ⟨ctx, rfl, hredeemer, hoffer⟩
  · exact absurd hold hbefore
  · exact ⟨pre, env, ctx, post, w', he, hredeemer, hoffer, hs, hafter⟩

/-- With exact tokens, in every reachable state: every redemption offer redeems at the offer for
its inverted pair, every open request was made by its redeemer and is honored, and nothing else
is resolved. -/
theorem requests_pay_right_party (l : Ledger) (hexact : l.Exact) (actions : List Action) :
    let w := run step (World.genesis l) actions
    (∀ k o, w.redemptionOffers.lookup k = some o → Inverts k o) ∧
    (∀ q r, w.redemptionRequests.lookup q = some r →
      q = ⟨r.offer, r.requestId⟩ ∧ MadeIn l actions q r ∧
      ∃ o, w.redemptionOffers.lookup r.offer = some o ∧ Honored w q o r) ∧
    ∀ a w' q, step a w = .ok w' → resolvedRequest a.instruction = some q →
      ∃ r, w.redemptionRequests.lookup q = some r := by
  intro w
  refine ⟨?_, ?_, ?_⟩
  · intro k o ho
    exact inverts_run l actions ho
  · intro q r hr
    obtain ⟨hq, o, ho⟩ := offer_of_open l actions hr
    have hledger : w.ledger.Exact := hexact.calls (calls_run (World.genesis l) actions)
    have hunder := (inverts_run l actions ho).underlying
    exact ⟨hq, madeIn_of_open l actions hr, o, ho,
      honored_of_open hledger ho hunder (redemptionFee_le l actions ho) hr⟩
  · intro a w' q hs hq
    exact open_of_resolved hs hq

/-- ONyc under the program's authority: the redemption admin fulfills Alice's request, from the
vault that holds Bob's. -/
theorem requests_pay_right_party_sample :
    let w := run step (World.genesis (Sample.ledger Seeds.mintAuthority))
      (Sample.setup ++ [Sample.aliceRequests, Sample.bobRequests])
    let ctx : FulfillRedemptionRequest := ⟨Sample.boss.key, ⟨Sample.usdc, Sample.onyc⟩,
      ⟨Sample.onyc, Sample.usdc⟩, ⟨⟨Sample.onyc, Sample.usdc⟩, 0⟩, Sample.onyc, .token,
      Sample.usdc, .token, Sample.alice.key, Sample.redemptionAdmin⟩
    ∃ o r w', Honored w ⟨⟨Sample.onyc, Sample.usdc⟩, 0⟩ o r ∧
      fulfillRedemptionRequest (Sample.env 1000) ctx w = .ok w' ∧
      ∃ net fee out, FulfillPays ctx 500000000 net fee out w.ledger w'.ledger := by
  intro w ctx
  have hamount : (w.redemptionRequests.lookup ⟨⟨Sample.onyc, Sample.usdc⟩, 0⟩).map
      RedemptionRequest.amount = some 500000000 := by decide +kernel
  obtain ⟨w', hstep⟩ : ∃ w', fulfillRedemptionRequest (Sample.env 1000) ctx w = .ok w' :=
    Library.Outcome.exists_ok_of_toBool (by decide +kernel)
  obtain ⟨r, hr, hra⟩ := Option.map_eq_some_iff.mp hamount
  obtain ⟨hinverts, hopen, _⟩ := requests_pay_right_party (Sample.ledger Seeds.mintAuthority)
    (Sample.exact_ledger Seeds.mintAuthority)
    (Sample.setup ++ [Sample.aliceRequests, Sample.bobRequests])
  obtain ⟨hq, _, o, ho, hhonored⟩ := hopen _ r hr
  have hoffer : ⟨Sample.onyc, Sample.usdc⟩ = r.offer := congrArg RedemptionRequestPda.offer hq
  have hseeds := (hinverts _ o ho).seeds
  rw [← hoffer] at hseeds
  have hin : Sample.onyc = o.tokenInMint := congrArg RedemptionOfferPda.tokenInMint hseeds
  have hout : Sample.usdc = o.tokenOutMint := congrArg RedemptionOfferPda.tokenOutMint hseeds
  have hmints : o.tokenInMint ≠ o.tokenOutMint := by
    rw [← hin, ← hout]
    decide
  obtain ⟨_, _, _, _, _, _, hpays⟩ := (hhonored.fulfill _ ctx w' rfl hstep).2.1 hmints
  rw [hra] at hpays
  exact ⟨o, r, w', hhonored, hstep, _, _, _, hpays⟩

end OnreApp.Redemption
