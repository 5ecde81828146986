import OnreApp.Offers.TakeEffect
import OnreApp.Program.RouteEquivalence

/-!
# When a take goes through

On either route: the part of the answer that no take can change, and the part that is about
what the user holds and what the program can still pay.
-/
namespace OnreApp.Offers

open Library.Balance Library.Outcome Program Tokens Utils

inductive Route
  | direct | permissionless
  deriving DecidableEq

/-- A take, with the environment it runs in: its transaction, its approval and its clock. -/
structure Take where
  env : Env
  ctx : TakeOffer
  amount : UInt64
  approval : Option ApprovalMessage
  route : Route

namespace Take

def execute (t : Take) (w : World) : Except Error World :=
  match t.route with
  | .direct => takeOffer t.env t.ctx t.amount t.approval w
  | .permissionless => takeOfferPermissionless t.env t.ctx.permissionless t.amount t.approval w

def userIn (t : Take) : Ata := t.ctx.tokenInAccount t.ctx.user.key
def userOut (t : Take) : Ata := t.ctx.tokenOutAccount t.ctx.user.key
def vaultOut (t : Take) : Ata := t.ctx.tokenOutAccount Seeds.offerVaultAuthority

/-- What the permissionless route asks for besides. -/
def RouteOpen (t : Take) (offer : Offer) (w : World) : Prop :=
  t.route = .permissionless → offer.allowPermissionless = true ∧
    w.ledger.HasAccount (t.ctx.tokenInAccount Seeds.permissionlessAuthority) ∧
    w.ledger.HasAccount (t.ctx.tokenOutAccount Seeds.permissionlessAuthority)

/-- Everything a take checks but balances and supplies. -/
def Cleared (t : Take) (w : World) (result : OfferProcessResult) : Prop :=
  ∃ offer s tokenIn tokenOut l,
    TakeChecks t.env t.ctx t.amount t.approval w offer s tokenIn tokenOut l result ∧
      hasTransferFee t.env.epoch tokenIn = false ∧ hasTransferFee t.env.epoch tokenOut = false ∧
      t.RouteOpen offer w

/-- The user has the amount, and the program can pay what it buys. -/
structure Affordable (t : Take) (w : World) (result : OfferProcessResult) : Prop where
  held : t.amount.toNat ≤ w.ledger.amount t.userIn
  mint : w.ledger.mintAuthority t.ctx.tokenOutMint = some Seeds.mintAuthority →
    (∀ s, w.state = some s → 0 < s.maxSupply →
      w.ledger.supply t.ctx.tokenOutMint + result.tokenOutAmount.toNat ≤ s.maxSupply.toNat) ∧
    w.ledger.supply t.ctx.tokenOutMint + result.tokenOutAmount.toNat < 2 ^ 64
  vault : w.ledger.mintAuthority t.ctx.tokenOutMint ≠ some Seeds.mintAuthority →
    result.tokenOutAmount.toNat ≤ w.ledger.amount t.vaultOut

end Take

section Checks

variable {env : Env} {w : World} {ctx : TakeOffer} {amount : UInt64}
  {approval : Option ApprovalMessage} {offer : Offer} {s : State} {tokenIn tokenOut : MintAccount}
  {l : Ledger} {result : OfferProcessResult}

/-- A direct take goes through exactly if the exchange can be afforded. -/
theorem TakeChecks.execute_ok_iff {t : Take}
    (h : TakeChecks t.env t.ctx t.amount t.approval w offer s tokenIn tokenOut l result)
    (hmints : t.ctx.tokenInMint ≠ t.ctx.tokenOutMint) :
    (∃ l', executeTokenOperations t.env.epoch
        (t.ctx.execParams t.ctx.user.key s tokenIn tokenOut result) l = .ok l') ↔
      hasTransferFee t.env.epoch tokenIn = false ∧ hasTransferFee t.env.epoch tokenOut = false ∧
        t.Affordable w result := by
  have hself : Calls (TokenCpi.MovesWithin [] []) l l := .refl l
  have huv : t.ctx.user.key ≠ Seeds.offerVaultAuthority := t.ctx.user.ne_authority (by decide)
  rw [h.exchange_ok_iff hself h.has_userIn h.has_userOut huv, TakeOffer.canPayOut_iff hmints]
  have hsupply : tokenOut.supply.toNat = w.ledger.supply t.ctx.tokenOutMint := by
    rw [← h.tokenOut_key]
    exact h.supply_tokenOut.symm
  rw [CanDistribute, h.supply_eq, h.tokenOut_key, h.amount_eq, h.amount_eq, hsupply]
  have hcontrols : programControlsMint tokenOut Seeds.mintAuthority = true ↔
      w.ledger.mintAuthority t.ctx.tokenOutMint = some Seeds.mintAuthority :=
    programControlsMint_iff h.tokenOut
  refine and_congr_right fun _ => and_congr_right fun _ => ?_
  constructor
  · intro hcan
    constructor
    · exact hcan.1
    · intro hm
      have hcan := hcan.2
      rw [if_pos (hcontrols.mpr hm)] at hcan
      refine ⟨fun s' hs' => ?_, hcan.2⟩
      rw [← Option.some.inj (h.state_stored.symm.trans hs')]
      exact hcan.1
    · intro hm
      have hcan := hcan.2
      rwa [if_neg fun hc => hm (hcontrols.mp hc)] at hcan
  · intro hafford
    refine ⟨hafford.held, ?_⟩
    split
    · next hc =>
      obtain ⟨hcap, hlt⟩ := hafford.mint (hcontrols.mp hc)
      exact ⟨hcap s h.state_stored, hlt⟩
    · next hc => exact hafford.vault fun hm => hc (hcontrols.mpr hm)

end Checks

/-- The permissionless route opens no other account than the direct one. -/
theorem takeOfferPermissionless_hasAccount {env : Env} {ctx : TakeOfferPermissionless}
    {amount : UInt64} {approval : Option ApprovalMessage} {w w' : World}
    (h : takeOfferPermissionless env ctx amount approval w = .ok w') (a : Ata) :
    w'.ledger.HasAccount a ↔
      a = ctx.tokenOutAccount ctx.user.key ∨ w.ledger.HasAccount a := by
  obtain ⟨_, _, _, _, l, _, l₁, l₂, l₃, hc, _, _, _, _, _, _, h₁, hexec, h₃, rfl⟩ :=
    takeOfferPermissionless_eq_ok.mp h
  calc l₃.HasAccount a ↔ l₂.HasAccount a := transferTokens_hasAccount h₃
    _ ↔ l₁.HasAccount a := executeTokenOperations_hasAccount hexec
    _ ↔ l.HasAccount a := transferTokens_hasAccount h₁
    _ ↔ _ := hc.hasAccount_iff a

/-- What a take computes is determined by what clears it. -/
theorem Take.Cleared.unique {t : Take} {w : World} {r r' : OfferProcessResult}
    (h : t.Cleared w r) (h' : t.Cleared w r') : r = r' := by
  obtain ⟨_, _, _, _, _, hc, _⟩ := h
  obtain ⟨_, _, _, _, _, hc', _⟩ := h'
  exact Except.ok.inj (hc.quote.symm.trans hc'.quote)

section Routes

variable {t : Take} {w w' : World}

namespace Take

/-- The permissionless route goes through exactly where the direct one does and the offer and
the intermediary's accounts allow it. -/
theorem permissionless_ok_iff :
    (∃ w', takeOfferPermissionless t.env t.ctx.permissionless t.amount t.approval w = .ok w') ↔
      (∃ w', takeOffer t.env t.ctx t.amount t.approval w = .ok w') ∧
        ∃ offer, w.offers.lookup t.ctx.offerPda = some offer ∧ offer.allowPermissionless = true ∧
          w.ledger.HasAccount (t.ctx.tokenInAccount Seeds.permissionlessAuthority) ∧
          w.ledger.HasAccount (t.ctx.tokenOutAccount Seeds.permissionlessAuthority) := by
  constructor
  · intro h
    obtain ⟨w', h⟩ := h
    obtain ⟨offer, _, _, _, _, _, _, _, _, hc, hallow, _, _, _, hin, hout, _⟩ :=
      takeOfferPermissionless_eq_ok.mp h
    exact ⟨direct_of_permissionless h, offer, hc.offer_stored, hallow, hin, hout⟩
  · intro h
    obtain ⟨⟨w₁, h₁⟩, offer, ho, hallow, hin, hout⟩ := h
    obtain ⟨w₂, h₂, _⟩ := permissionless_of_direct ho hallow hin hout h₁
    exact ⟨w₂, h₂⟩

theorem execute_flow (h : t.execute w = .ok w') :
    ∃ result, t.Cleared w result ∧ TakeFlow t.ctx t.amount result w w' := by
  obtain ⟨env, ctx, amount, approval, route⟩ := t
  cases route with
  | direct =>
    obtain ⟨offer, s, tokenIn, tokenOut, l, result, l', hc, hexec, rfl⟩ := takeOffer_eq_ok.mp h
    obtain ⟨hin, hout, _⟩ := executeTokenOperations_eq_ok.mp hexec
    exact ⟨result, ⟨offer, s, tokenIn, tokenOut, l, hc, hin, hout, nofun⟩,
      hc.takeFlow hexec⟩
  | permissionless =>
    have h : takeOfferPermissionless env ctx.permissionless amount approval w = .ok w' := h
    obtain ⟨⟨w₁, h₁⟩, offer, ho, hallow, hopenIn, hopenOut⟩ :=
      (permissionless_ok_iff (t := ⟨env, ctx, amount, approval, .permissionless⟩)).mp
        ⟨w', h⟩
    obtain ⟨w₂, h₂, hagree⟩ :=
      permissionless_of_direct ho hallow hopenIn hopenOut h₁
    obtain rfl : w' = w₂ := Except.ok.inj (h.symm.trans h₂)
    obtain ⟨offer', s, tokenIn, tokenOut, l, result, l', hc, hexec, rfl⟩ := takeOffer_eq_ok.mp h₁
    obtain rfl : offer' = offer := Option.some.inj (hc.offer_stored.symm.trans ho)
    obtain ⟨hin, hout, _⟩ := executeTokenOperations_eq_ok.mp hexec
    have hflow := hc.takeFlow hexec
    obtain ⟨s', l₃, _, hledger, rfl⟩ := takeOfferPermissionless_ledger h
    refine ⟨result, ⟨offer', s, tokenIn, tokenOut, l, hc, hin, hout,
      fun _ => ⟨hallow, hopenIn, hopenOut⟩⟩, ?_⟩
    constructor
    · exact hflow.total
    · exact (funext hagree.balances : l₃.amount = l'.amount) ▸ hflow.balances
    · exact (funext hagree.supply : l₃.supply = l'.supply) ▸ hflow.supply
    · exact takeOfferPermissionless_hasAccount h
    · exact hledger.calls.terms_eq_of_within
    · rfl

variable (hmints : t.ctx.tokenInMint ≠ t.ctx.tokenOutMint)
include hmints

theorem direct_ok_iff : (∃ w', takeOffer t.env t.ctx t.amount t.approval w = .ok w') ↔
    ∃ offer s tokenIn tokenOut l result,
      TakeChecks t.env t.ctx t.amount t.approval w offer s tokenIn tokenOut l result ∧
        hasTransferFee t.env.epoch tokenIn = false ∧ hasTransferFee t.env.epoch tokenOut = false ∧
        t.Affordable w result := by
  simp only [takeOffer_eq_ok]
  constructor
  · intro h
    obtain ⟨_, offer, s, tokenIn, tokenOut, l, result, l', hc, hexec, _⟩ := h
    exact ⟨offer, s, tokenIn, tokenOut, l, result, hc,
      (hc.execute_ok_iff hmints).mp ⟨l', hexec⟩⟩
  · intro h
    obtain ⟨offer, s, tokenIn, tokenOut, l, result, hc, hafford⟩ := h
    obtain ⟨l', hexec⟩ := (hc.execute_ok_iff hmints).mpr hafford
    exact ⟨_, offer, s, tokenIn, tokenOut, l, result, l', hc, hexec, rfl⟩

theorem execute_ok_iff :
    (∃ w', t.execute w = .ok w') ↔ ∃ result, t.Cleared w result ∧ t.Affordable w result := by
  have hdirect := direct_ok_iff (w := w) hmints
  have hpermissionless := permissionless_ok_iff (t := t) (w := w)
  obtain ⟨env, ctx, amount, approval, route⟩ := t
  cases route with
  | direct =>
    refine hdirect.trans ?_
    constructor
    · intro h
      obtain ⟨offer, s, tokenIn, tokenOut, l, result, hc, hin, hout, hafford⟩ := h
      exact ⟨result, ⟨offer, s, tokenIn, tokenOut, l, hc, hin, hout, nofun⟩, hafford⟩
    · intro h
      obtain ⟨result, ⟨offer, s, tokenIn, tokenOut, l, hc, hin, hout, _⟩, hafford⟩ := h
      exact ⟨offer, s, tokenIn, tokenOut, l, result, hc, hin, hout, hafford⟩
  | permissionless =>
    refine hpermissionless.trans ?_
    rw [hdirect]
    constructor
    · intro h
      obtain ⟨⟨offer, s, tokenIn, tokenOut, l, result, hc, hin, hout, hafford⟩,
        offer', ho, hopen⟩ := h
      obtain rfl : offer = offer' := Option.some.inj (hc.offer_stored.symm.trans ho)
      exact ⟨result, ⟨offer, s, tokenIn, tokenOut, l, hc, hin, hout, fun _ => hopen⟩, hafford⟩
    · intro h
      obtain ⟨result, ⟨offer, s, tokenIn, tokenOut, l, hc, hin, hout, hopen⟩, hafford⟩ := h
      exact ⟨⟨offer, s, tokenIn, tokenOut, l, result, hc, hin, hout, hafford⟩, offer,
        hc.offer_stored, hopen rfl⟩

/-- What a take that went through says about the world it found and the one it left. -/
theorem execute_spec (h : t.execute w = .ok w') : ∃ result, t.Cleared w result ∧
    t.Affordable w result ∧ TakeFlow t.ctx t.amount result w w' := by
  obtain ⟨result, hc, hflow⟩ := execute_flow h
  obtain ⟨result', hc', hafford⟩ := (execute_ok_iff hmints).mp ⟨w', h⟩
  obtain rfl := hc.unique hc'
  exact ⟨result, hc, hafford, hflow⟩

/-- A take that is cleared and can be afforded goes through. -/
theorem execute_of_cleared {result : OfferProcessResult} (hc : t.Cleared w result)
    (hafford : t.Affordable w result) :
    ∃ w', t.execute w = .ok w' ∧ TakeFlow t.ctx t.amount result w w' := by
  obtain ⟨w', h⟩ := (execute_ok_iff hmints).mpr ⟨result, hc, hafford⟩
  obtain ⟨result', hc', hflow⟩ := execute_flow h
  obtain rfl := hc.unique hc'
  exact ⟨w', h, hflow⟩

end Take

end Routes

end OnreApp.Offers
