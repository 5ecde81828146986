import OnreApp.Program.Effects
import OnreApp.Program.Genesis
import OnreApp.Program.Quotes

/-!
# The fee ceiling

Three of the four instructions that set a fee compare it with the ceiling of 10%;
`update_offer_fee` compares it with 100%. The ceiling holds throughout exactly the runs in
which no update goes through above it.
-/
namespace OnreApp.Program

open Library.FiniteStore Library.Outcome Library.Rounding Library.Run Offers Redemption Tokens Utils

/-- Every stored offer and redemption offer is within the ceiling. -/
structure FeesCapped (w : World) : Prop where
  offers : ∀ k o, w.offers.lookup k = some o → o.feeBasisPoints.toNat ≤ maxAllowedFeeBps
  redemptionOffers : ∀ k o, w.redemptionOffers.lookup k = some o →
    o.feeBasisPoints.toNat ≤ maxAllowedFeeBps

/-- The action does not reach the assignment of `update_offer_fee` with a fee above the
ceiling: it is within the ceiling, or above 100%, or its accounts are not accepted. -/
def RespectsCeiling (w : World) (a : Action) : Prop :=
  match a.instruction with
  | .updateOfferFee ctx fee => fee.toNat ≤ maxAllowedFeeBps ∨ maxBasisPoints < fee.toNat ∨
      (ctx.load w).toBool = false
  | _ => True

/-- Every take and fulfillment charges at most a tenth of its amount, rounded up. -/
structure ChargesAtMostTenth (w : World) : Prop where
  takeOffer : ∀ env ctx amount approval w', Offers.takeOffer env ctx amount approval w = .ok w' →
    ∃ result, takeQuote env ctx amount w = .ok result ∧
      result.tokenInFeeAmount.toNat ≤ amount.toNat ⌈/⌉ (10 : ℕ)
  takeOfferPermissionless : ∀ env ctx amount approval w',
    Offers.takeOfferPermissionless env ctx amount approval w = .ok w' →
    ∃ result, takeQuote env ctx.toTakeOffer amount w = .ok result ∧
      result.tokenInFeeAmount.toNat ≤ amount.toNat ⌈/⌉ (10 : ℕ)
  fulfillRedemptionRequest : ∀ env ctx w', Redemption.fulfillRedemptionRequest env ctx w = .ok w' →
    ∃ r result, w.redemptionRequests.lookup ctx.redemptionRequest = some r ∧
      fulfillmentQuote env ctx w = .ok result ∧
      result.tokenInFeeAmount.toNat ≤ r.amount.toNat ⌈/⌉ (10 : ℕ)

/-! ## No fee exceeds the amount

In every reachable state. -/

theorem offerFee_le (l : Ledger) (actions : List Action) {k : OfferPda} {o : Offer}
    (ho : (run step (World.genesis l) actions).offers.lookup k = some o) :
    o.feeBasisPoints.toNat ≤ maxBasisPoints := by
  refine offers_invariant (C := fun _ _ => True)
    (Q := fun _ o => o.feeBasisPoints.toNat ≤ maxBasisPoints)
    (fun k o ho => absurd ho (World.genesis_offers l k o)) ?_ ?_ ?_ ?_ k o ho
  · intro k fee needsApproval permissionless hle
    exact Nat.le_trans hle (by decide)
  · intro a w w' ctx k o bps _ hstep hinstr _
    obtain ⟨env, i⟩ := a
    have hinstr : i = .updateOfferFee ctx bps := hinstr
    subst hinstr
    exact updateOfferFee_fee_le hstep
  · intro a w w' e k o o' _ _ _ hedit hle
    rw [editVectors_terms hedit]
    exact hle
  · exact along_of_forall fun _ _ _ => trivial

theorem redemptionFee_le (l : Ledger) (actions : List Action) {k : RedemptionOfferPda}
    {o : RedemptionOffer}
    (ho : (run step (World.genesis l) actions).redemptionOffers.lookup k = some o) :
    o.feeBasisPoints.toNat ≤ maxBasisPoints := by
  refine redemptionOffers_invariant (Q := fun _ o => o.feeBasisPoints.toNat ≤ maxBasisPoints)
    (fun k o ho => absurd ho (World.genesis_redemptionOffers l k o)) ?_ ?_ actions k o ho
  · intro ctx fee hle
    exact Nat.le_trans hle (by decide)
  · intro k o o' hedit hle
    rcases hedit.fee with he | hcap
    · rw [he]
      exact hle
    · exact Nat.le_trans hcap (by decide)

/-! ## The fee charged -/

theorem feeOf_le_tenth {amount bps : ℕ} (h : bps ≤ maxAllowedFeeBps) :
    feeOf amount bps ≤ amount ⌈/⌉ (10 : ℕ) := by
  apply ceilDiv_le maxBasisPoints_pos
  have htenth := le_ceilDiv_mul amount (d := 10) (by decide)
  calc amount * bps ≤ (amount ⌈/⌉ (10 : ℕ) * 10) * maxAllowedFeeBps := Nat.mul_le_mul htenth h
    _ = amount ⌈/⌉ (10 : ℕ) * maxBasisPoints := Nat.mul_assoc _ 10 maxAllowedFeeBps

theorem calculateFees_le_tenth {amount : UInt64} {bps : UInt16} {r : CalculateFeeResult}
    (hbps : bps.toNat ≤ maxAllowedFeeBps) (h : calculateFees amount bps = .ok r) :
    r.tokenInFeeAmount.toNat ≤ amount.toNat ⌈/⌉ (10 : ℕ) := by
  have hle : bps.toNat ≤ maxBasisPoints := hbps.trans (by decide)
  rw [((calculateFees_eq_ok hle).mp h).1]
  exact feeOf_le_tenth hbps

theorem processOfferCore_le_tenth {env : Env} {offer : Offer} {amount : UInt64}
    {tokenIn tokenOut : MintAccount} {result : OfferProcessResult}
    (hbps : offer.feeBasisPoints.toNat ≤ maxAllowedFeeBps)
    (h : processOfferCore env offer amount tokenIn tokenOut = .ok result) :
    result.tokenInFeeAmount.toNat ≤ amount.toNat ⌈/⌉ (10 : ℕ) := by
  simp only [processOfferCore, bind_eq_ok, pure_eq_ok] at h
  obtain ⟨_, _, _, _, _, _, fees, hfees, _, _, rfl⟩ := h
  exact calculateFees_le_tenth hbps hfees

theorem processRedemptionCore_le_tenth {env : Env} {offer : Offer} {amount : UInt64}
    {tokenIn tokenOut : MintAccount} {bps : UInt16} {result : RedemptionProcessResult}
    (hbps : bps.toNat ≤ maxAllowedFeeBps)
    (h : processRedemptionCore env offer amount tokenIn tokenOut bps = .ok result) :
    result.tokenInFeeAmount.toNat ≤ amount.toNat ⌈/⌉ (10 : ℕ) := by
  simp only [processRedemptionCore, bind_eq_ok, pure_eq_ok] at h
  obtain ⟨_, _, fees, hfees, _, _, rfl⟩ := h
  exact calculateFees_le_tenth hbps hfees

theorem FeesCapped.charges {w : World} (h : FeesCapped w) : ChargesAtMostTenth w where
  takeOffer := by
    intro env ctx amount approval w' htake
    obtain ⟨offer, _, _, _, _, result, _, hc, _⟩ := takeOffer_eq_ok.mp htake
    exact ⟨result, hc.quote, processOfferCore_le_tenth (h.offers _ _ hc.offer_stored) hc.priced⟩
  takeOfferPermissionless := by
    intro env ctx amount approval w' htake
    obtain ⟨offer, _, _, _, _, result, _, _, _, hc, _⟩ := takeOfferPermissionless_eq_ok.mp htake
    exact ⟨result, hc.quote, processOfferCore_le_tenth (h.offers _ _ hc.offer_stored) hc.priced⟩
  fulfillRedemptionRequest := by
    intro env ctx w' hfulfill
    obtain ⟨s, offer, o, r, _, _, result, _, _, _, hf⟩ := fulfillRedemptionRequest_ok hfulfill
    exact ⟨r, result, hf.request_stored, hf.quote,
      processRedemptionCore_le_tenth (h.redemptionOffers _ _ hf.offer_stored) hf.priced⟩

/-! ## Runs -/

theorem feesCapped_run {l : Ledger} {actions : List Action}
    (h : Along step RespectsCeiling (World.genesis l) actions) :
    FeesCapped (run step (World.genesis l) actions) where
  offers := by
    refine offers_invariant (Q := fun _ o => o.feeBasisPoints.toNat ≤ maxAllowedFeeBps)
      (fun k o ho => absurd ho (World.genesis_offers l k o)) id ?_ ?_ h
    · intro a w w' ctx k o bps hc hstep hinstr _
      obtain ⟨env, i⟩ := a
      have hinstr : i = .updateOfferFee ctx bps := hinstr
      subst hinstr
      have hle := updateOfferFee_fee_le hstep
      obtain ⟨o', hload, _⟩ := updateOfferFee_ok hstep
      rcases hc with hcap | habove | hfails
      · exact hcap
      · exact absurd hle (Nat.not_le.mpr habove)
      · rw [hload] at hfails
        cases hfails
    · intro a w w' e k o o' _ _ _ hedit hcap
      rw [editVectors_terms hedit]
      exact hcap
  redemptionOffers := by
    refine redemptionOffers_invariant (Q := fun _ o => o.feeBasisPoints.toNat ≤ maxAllowedFeeBps)
      (fun k o ho => absurd ho (World.genesis_redemptionOffers l k o)) id ?_ actions
    intro k o o' hedit hcap
    rcases hedit.fee with he | hle
    · rw [he]
      exact hcap
    · exact hle

/-- An update above the ceiling that is not excluded goes through, and breaks the ceiling. -/
theorem respectsCeiling_of_feesCapped {w : World} {a : Action} (h : FeesCapped (exec step w a)) :
    RespectsCeiling w a := by
  obtain ⟨env, i⟩ := a
  cases i with
  | updateOfferFee ctx fee =>
    show fee.toNat ≤ maxAllowedFeeBps ∨ maxBasisPoints < fee.toNat ∨ (ctx.load w).toBool = false
    by_cases hle : fee.toNat ≤ maxBasisPoints
    · cases hload : ctx.load w with
      | error e => exact .inr (.inr rfl)
      | ok o =>
        have hstep : step ⟨env, .updateOfferFee ctx fee⟩ w =
            .ok (w.setOffer ctx.offerPda { o with feeBasisPoints := fee }) := by
          show updateOfferFee ctx fee w = _
          simp only [updateOfferFee, bind_eq_ok, require_eq_ok, pure_eq_ok]
          exact ⟨o, hload, ⟨⟩, hle, rfl⟩
        rw [exec_ok hstep] at h
        exact .inl (h.offers ctx.offerPda _ ((lookup_insert_eq _ _ _ _).trans (if_pos rfl)))
    · exact .inr (.inl (Nat.not_le.mp hle))
  | _ => exact trivial

/-- The ceiling holds in every state of a run exactly if no update of the run breaks it, and
then no exchange is charged more than a tenth. -/
theorem fee_ceiling_iff (l : Ledger) (actions : List Action) :
    ((∀ pre post, actions = pre ++ post → FeesCapped (run step (World.genesis l) pre)) ↔
      Along step RespectsCeiling (World.genesis l) actions) ∧
    (Along step RespectsCeiling (World.genesis l) actions → ∀ pre post, actions = pre ++ post →
      ChargesAtMostTenth (run step (World.genesis l) pre)) := by
  have hcapped : Along step RespectsCeiling (World.genesis l) actions → ∀ pre post,
      actions = pre ++ post → FeesCapped (run step (World.genesis l) pre) := by
    intro h pre post he
    rw [he] at h
    exact feesCapped_run h.prefix
  constructor
  · constructor
    · intro h
      rw [along_iff]
      intro pre a post he
      apply respectsCeiling_of_feesCapped
      rw [← run_concat]
      exact h (pre ++ [a]) post (by rw [he, List.append_assoc]; rfl)
    · exact hcapped
  · intro h pre post he
    exact (hcapped h pre post he).charges

/-- The boss makes an offer without a fee and raises the fee to 50%: Alice's take of 1000 units is
charged 500. -/
theorem fee_above_ceiling :
    let w := run step (World.genesis (Sample.ledger Sample.issuer))
      (Sample.market false ++
        [Sample.act (.updateOfferFee ⟨Sample.usdc, Sample.onyc, Sample.boss⟩ 5000)])
    ¬ FeesCapped w ∧ ¬ ChargesAtMostTenth w := by
  intro w
  have hfee : (w.offers.lookup ⟨Sample.usdc, Sample.onyc⟩).map Offer.feeBasisPoints =
      some 5000 := by
    decide +kernel
  have hcharged : (takeQuote (Sample.env 1000) Sample.aliceTakes.toTakeOffer 1000 w).toOption.map
      OfferProcessResult.tokenInFeeAmount = some 500 := by decide +kernel
  obtain ⟨w', htake⟩ : ∃ w', takeOffer (Sample.env 1000) Sample.aliceTakes.toTakeOffer 1000 none w =
      .ok w' := exists_ok_of_toBool (by decide +kernel)
  constructor
  · intro h
    obtain ⟨o, ho, he⟩ := Option.map_eq_some_iff.mp hfee
    have hle := h.offers _ o ho
    rw [he] at hle
    exact absurd hle (by decide)
  · intro h
    obtain ⟨result, hquote, hle⟩ := h.takeOffer _ _ _ _ _ htake
    rw [hquote] at hcharged
    rw [Option.some.inj hcharged] at hle
    exact absurd hle (by decide)

end OnreApp.Program
