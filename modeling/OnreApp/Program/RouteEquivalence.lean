import OnreApp.Offers.Exchange
import OnreApp.Program.Genesis

/-!
# The permissionless route is the direct route

Passing both payments through the intermediary changes nothing: the routes succeed together
and leave the same balances and supplies, and the intermediary with what it had.
-/
namespace OnreApp.Offers

open Library.Balance Library.Outcome Program Tokens Utils

/-- The same take on the permissionless route, with the program's own authorities. -/
def TakeOffer.permissionless (ctx : TakeOffer) : TakeOfferPermissionless :=
  { ctx with
    vaultAuthority := Seeds.offerVaultAuthority
    permissionlessAuthority := Seeds.permissionlessAuthority
    mintAuthority := Seeds.mintAuthority }

/-! ## The two routes -/

/-- What the direct route and the permissionless one leave is the same, down to every
balance, and the intermediary has what it had. -/
structure RoutesAgree (w direct permissionless : World) : Prop where
  balances : ∀ a, permissionless.ledger.amount a = direct.ledger.amount a
  supply : ∀ k, permissionless.ledger.supply k = direct.ledger.supply k
  offers : permissionless.offers = direct.offers
  state : permissionless.state = direct.state
  intermediary : ∀ a, a.wallet = Seeds.permissionlessAuthority →
    permissionless.ledger.amount a = w.ledger.amount a

section Routes

variable {env : Env} {w w₁ w₂ : World} {ctx : TakeOffer} {amount : UInt64}
  {approval : Option ApprovalMessage} {offer : Offer}

theorem permissionless_of_direct (hstored : w.offers.lookup ctx.offerPda = some offer)
    (hallow : offer.allowPermissionless = true)
    (hin : w.ledger.HasAccount (ctx.tokenInAccount Seeds.permissionlessAuthority))
    (hout : w.ledger.HasAccount (ctx.tokenOutAccount Seeds.permissionlessAuthority))
    (h : takeOffer env ctx amount approval w = .ok w₁) :
    ∃ w₂, takeOfferPermissionless env ctx.permissionless amount approval w = .ok w₂ ∧
      RoutesAgree w w₁ w₂ := by
  obtain ⟨offer', s, tokenIn, tokenOut, l, result, l', hc, hexec, rfl⟩ := takeOffer_eq_ok.mp h
  obtain rfl : offer = offer' := Option.some.inj (hstored.symm.trans hc.offer_stored)
  have hinit : Calls (fun _ => False) w.ledger l := hc.calls
  have hself : Calls (TokenCpi.MovesWithin [] []) l l := .refl l
  obtain ⟨l₁, l₂, l₃, h₁, h₂, h₃⟩ :=
    (hc.relay_ok_iff (hinit.hasAccount hin) (hinit.hasAccount hout)).mpr ⟨l', hexec⟩
  obtain ⟨hfi, hfo, _⟩ := executeTokenOperations_eq_ok.mp hexec
  have hc₁ : Calls (TokenCpi.MovesWithin [ctx.user.key] [Seeds.permissionlessAuthority]) l l₁ :=
    transferTokens_calls h₁ ⟨List.mem_singleton_self _, List.mem_singleton_self _⟩
  have hc₂ := executeTokenOperations_calls h₂
  obtain ⟨hdirect, hdirectSupply⟩ := hc.exchange_flow hself hexec
  obtain ⟨hf₂, hsupply₂⟩ := hc.exchange_flow hc₁ h₂
  have hf₁ := transferTokens_flow h₁ (hc.freeOfFee_in hfi hself)
  have hf₃ := transferTokens_flow h₃ ((hc.freeOfFee_out hfo hc₁).calls hc₂)
  have hbalances : l₃.amount = l'.amount := by
    refine Flow.unique (Flow.cancel (((hf₁.trans hf₂).trans hf₃).congr ?_ ?_)
      (t := Pi.single (ctx.tokenInAccount Seeds.permissionlessAuthority) amount.toNat +
        Pi.single (ctx.tokenOutAccount Seeds.permissionlessAuthority)
          result.tokenOutAmount.toNat)) hdirect
    · abel
    · abel
  have hsupply : l₃.supply = l'.supply := by
    rw [transferTokens_supply h₁] at hsupply₂
    rw [transferTokens_supply h₃]
    exact hsupply₂.unique hdirectSupply
  refine ⟨w.setLedger l₃, takeOfferPermissionless_eq_ok.mpr ⟨offer, s, tokenIn, tokenOut, l, result,
    l₁, l₂, l₃, hc, hallow, rfl, rfl, rfl, hin, hout, h₁, h₂, h₃, rfl⟩, ?_⟩
  refine ⟨congrFun hbalances, congrFun hsupply, rfl, rfl, fun a ha => ?_⟩
  show l₃.amount a = w.ledger.amount a
  rw [hbalances, hc.exchange_intermediary hexec ha, hc.amount_eq]

theorem direct_of_permissionless
    (h : takeOfferPermissionless env ctx.permissionless amount approval w = .ok w₂) :
    ∃ w₁, takeOffer env ctx amount approval w = .ok w₁ := by
  obtain ⟨offer, s, tokenIn, tokenOut, l, result, l₁, l₂, l₃, hc, _, _, _, _, hin, hout, h₁, h₂, h₃,
    _⟩ := takeOfferPermissionless_eq_ok.mp h
  have hc : TakeChecks env ctx amount approval w offer s tokenIn tokenOut l result := hc
  have hinit : Calls (fun _ => False) w.ledger l := hc.calls
  obtain ⟨l', hexec⟩ := (hc.relay_ok_iff (hinit.hasAccount hin) (hinit.hasAccount hout)).mp
    ⟨l₁, l₂, l₃, h₁, h₂, h₃⟩
  exact ⟨_, takeOffer_eq_ok.mpr ⟨offer, s, tokenIn, tokenOut, l, result, l', hc, hexec, rfl⟩⟩

end Routes

/-- Where the offer allows it and the intermediary's accounts exist, the routes succeed
together and agree. -/
theorem permissionless_iff_direct {env : Env} {w : World} {ctx : TakeOffer} {amount : UInt64}
    {approval : Option ApprovalMessage} {offer : Offer}
    (hstored : w.offers.lookup ctx.offerPda = some offer)
    (hallow : offer.allowPermissionless = true)
    (hin : w.ledger.HasAccount (ctx.tokenInAccount Seeds.permissionlessAuthority))
    (hout : w.ledger.HasAccount (ctx.tokenOutAccount Seeds.permissionlessAuthority)) :
    ((∃ w₂, takeOfferPermissionless env ctx.permissionless amount approval w = .ok w₂) ↔
      ∃ w₁, takeOffer env ctx amount approval w = .ok w₁) ∧
    ∀ w₁ w₂, takeOffer env ctx amount approval w = .ok w₁ →
      takeOfferPermissionless env ctx.permissionless amount approval w = .ok w₂ →
        RoutesAgree w w₁ w₂ := by
  constructor
  · constructor
    · intro h
      obtain ⟨w₂, h⟩ := h
      exact direct_of_permissionless h
    · intro h
      obtain ⟨w₁, h⟩ := h
      obtain ⟨w₂, h₂, _⟩ := permissionless_of_direct hstored hallow hin hout h
      exact ⟨w₂, h₂⟩
  · intro w₁ w₂ h h₂
    obtain ⟨w₂', h₂', hagree⟩ := permissionless_of_direct hstored hallow hin hout h
    rw [Except.ok.inj (h₂.symm.trans h₂')]
    exact hagree

/-- Alice takes with 1000 units of USDC on either route; the intermediary keeps its stale
balances of 7 and 9 units. -/
theorem permissionless_iff_direct_sample :
    let w := Library.Run.run step (World.genesis (Sample.ledger Sample.issuer))
      (Sample.market false)
    ∃ w₁ w₂, takeOffer (Sample.env 1000) Sample.aliceTakes.toTakeOffer 1000 none w = .ok w₁ ∧
      takeOfferPermissionless (Sample.env 1000) Sample.aliceTakes 1000 none w = .ok w₂ ∧
      RoutesAgree w w₁ w₂ ∧
      w₂.ledger.amount (Sample.account Seeds.permissionlessAuthority Sample.usdc) = 7 ∧
      w₂.ledger.amount (Sample.account Seeds.permissionlessAuthority Sample.onyc) = 9 := by
  intro w
  obtain ⟨offer, hoffer⟩ : ∃ offer, w.offers.lookup Sample.aliceTakes.offerPda = some offer :=
    Option.isSome_iff_exists.mp (by decide +kernel)
  have hallow : (w.offers.lookup Sample.aliceTakes.offerPda).map Offer.allowPermissionless =
      some true := by decide +kernel
  rw [hoffer] at hallow
  have hroutes := @permissionless_iff_direct (Sample.env 1000) w Sample.aliceTakes.toTakeOffer 1000
    none offer hoffer (Option.some.inj hallow) (by decide +kernel) (by decide +kernel)
  obtain ⟨w₁, h₁⟩ : ∃ w', takeOffer (Sample.env 1000) Sample.aliceTakes.toTakeOffer 1000 none w =
      .ok w' := exists_ok_of_toBool (by decide +kernel)
  obtain ⟨w₂, h₂⟩ := hroutes.1.mpr ⟨w₁, h₁⟩
  have h := hroutes.2 w₁ w₂ h₁ h₂
  have hstale : w.ledger.amount (Sample.account Seeds.permissionlessAuthority Sample.usdc) = 7 ∧
      w.ledger.amount (Sample.account Seeds.permissionlessAuthority Sample.onyc) = 9 := by
    decide +kernel
  exact ⟨w₁, w₂, h₁, h₂, h, (h.intermediary _ rfl).trans hstale.1,
    (h.intermediary _ rfl).trans hstale.2⟩

end OnreApp.Offers
