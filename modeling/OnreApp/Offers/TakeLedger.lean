import OnreApp.Offers.TakeOffer
import OnreApp.Utils.TokenRouting

/-!
# What a take does to the ledger

Both routes move tokens between the user, the boss, the offer vault and the intermediary
only, and mint within the cap.
-/
namespace OnreApp.Offers

open Library.Outcome Program Tokens Utils

/-- The wallets an exchange for `user` takes from. -/
def takeDebits (user : Pubkey) : List Pubkey :=
  [user, Seeds.offerVaultAuthority, Seeds.permissionlessAuthority]

/-- The wallets an exchange for `user` under `boss` gives to. -/
def takeCredits (user boss : Pubkey) : List Pubkey :=
  [user, boss, Seeds.offerVaultAuthority, Seeds.permissionlessAuthority]

section Takes

variable {env : Env} {w : World} {ctx : TakeOffer} {amount : UInt64}
  {approval : Option ApprovalMessage} {offer : Offer} {s : State} {tokenIn tokenOut : MintAccount}
  {l l₁ l₂ : Ledger} {result : OfferProcessResult} {payer : Pubkey}
  (h : TakeChecks env ctx amount approval w offer s tokenIn tokenOut l result)
include h

/-- Before the exchange a take only creates an account. -/
theorem TakeChecks.calls {allow : TokenCpi → Prop} : Calls allow w.ledger l :=
  .of_initIfNeeded (TakeOffer.loadTokenAccounts_eq_ok.mp h.accounts).2.2.2.1

theorem TakeChecks.supply_tokenOut :
    w.ledger.supply tokenOut.key = tokenOut.supply.toNat := by
  rw [h.tokenOut_key, Ledger.supply, h.tokenOut]
  rfl

/-- The exchange of either route stays within the parties' wallets. -/
theorem TakeChecks.exec_calls
    (hexec : executeTokenOperations env.epoch (ctx.execParams payer s tokenIn tokenOut result)
      l₁ = .ok l₂) (hp : payer = ctx.user.key ∨ payer = Seeds.permissionlessAuthority) :
    Calls (TokenCpi.Within (takeDebits ctx.user.key) (takeCredits ctx.user.key s.boss.key))
      l₁ l₂ := by
  have hd : ∀ k, k = payer ∨ k = Seeds.offerVaultAuthority → k ∈ takeDebits ctx.user.key := by
    intro k hk
    simp only [takeDebits, List.mem_cons, List.not_mem_nil, or_false]
    grind
  have hc : ∀ k, k = payer ∨ k = ctx.boss ∨ k = Seeds.offerVaultAuthority →
      k ∈ takeCredits ctx.user.key s.boss.key := by
    intro k hk
    simp only [takeCredits, h.boss, List.mem_cons, List.not_mem_nil, or_false]
    grind
  refine (executeTokenOperations_calls hexec).mono fun c hall => hall.mono ?_ ?_
  · show [payer, Seeds.offerVaultAuthority, Seeds.offerVaultAuthority] ⊆ _
    simp [hd]
  · show [Seeds.offerVaultAuthority, ctx.boss, payer] ⊆ _
    simp [hc]

theorem TakeChecks.exec_capped {before : TokenCpi → Prop} (hpre : Calls before w.ledger l₁)
    (hb : ∀ c k, before c → ¬ c.mints k)
    (hexec : executeTokenOperations env.epoch (ctx.execParams payer s tokenIn tokenOut result)
      l₁ = .ok l₂) (hmax : 0 < s.maxSupply) : MintedWithin s.maxSupply.toNat l₁ l₂ := by
  refine executeTokenOperations_capped hexec hmax ?_
  show l₁.supply tokenOut.key ≤ tokenOut.supply.toNat
  rw [← h.supply_tokenOut]
  exact hpre.supply_le fun c hc => hb c _ hc

end Takes

section Routes

variable {env : Env} {w w' : World} {amount : UInt64} {approval : Option ApprovalMessage}

/-- What one route or the other does to the ledger, for a given user. -/
structure TakenLedger (user : Pubkey) (s : State) (l l' : Ledger) : Prop where
  calls : Calls (TokenCpi.Within (takeDebits user) (takeCredits user s.boss.key)) l l'
  capped : 0 < s.maxSupply → MintedWithin s.maxSupply.toNat l l'

theorem takeOffer_ledger {ctx : TakeOffer} (h : takeOffer env ctx amount approval w = .ok w') :
    ∃ s l, w.state = some s ∧ TakenLedger ctx.user.key s w.ledger l ∧ w' = w.setLedger l := by
  obtain ⟨offer, s, tokenIn, tokenOut, l, result, l', hc, hexec, rfl⟩ := takeOffer_eq_ok.mp h
  have hpre : Calls (fun _ => False) w.ledger l := hc.calls
  have hcalls := hc.exec_calls hexec (.inl rfl)
  refine ⟨s, l', hc.state_stored, ⟨hc.calls.trans hcalls, fun hmax => ?_⟩, rfl⟩
  have hcap := hc.exec_capped hpre (fun _ _ => False.elim) hexec hmax
  have hpost : Calls (fun _ => False) l' l' := .refl l'
  exact hcap.surround hpre (fun _ _ => False.elim) hcalls hpost fun _ _ => False.elim

theorem takeOfferPermissionless_ledger {ctx : TakeOfferPermissionless}
    (h : takeOfferPermissionless env ctx amount approval w = .ok w') :
    ∃ s l, w.state = some s ∧ TakenLedger ctx.user.key s w.ledger l ∧ w' = w.setLedger l := by
  obtain ⟨offer, s, tokenIn, tokenOut, l, result, l₁, l₂, l₃, hc, _, _, _, _, _, _, h₁, hexec, h₃,
    rfl⟩ := takeOfferPermissionless_eq_ok.mp h
  have hcalls := hc.exec_calls hexec (.inr rfl)
  have hin : Calls (TokenCpi.MovesWithin [ctx.user.key] [Seeds.permissionlessAuthority]) l l₁ :=
    transferTokens_calls h₁ ⟨List.mem_singleton_self _, List.mem_singleton_self _⟩
  have hout : Calls (TokenCpi.MovesWithin [Seeds.permissionlessAuthority] [ctx.user.key]) l₂ l₃ :=
    transferTokens_calls h₃ ⟨List.mem_singleton_self _, List.mem_singleton_self _⟩
  refine ⟨s, l₃, hc.state_stored, ⟨?_, fun hmax => ?_⟩, rfl⟩
  · refine hc.calls.trans ((hin.mono ?_).trans (hcalls.trans (hout.mono ?_)))
    · exact fun c hc => hc.within.mono (by simp [takeDebits]) (by simp [takeCredits])
    · exact fun c hc => hc.within.mono (by simp [takeDebits]) (by simp [takeCredits])
  · have hpre := hc.calls.trans hin
    have hcap := hc.exec_capped hpre (fun c k hc => hc.not_mints) hexec hmax
    exact hcap.surround hpre (fun c k hc => hc.not_mints) hcalls hout fun c k hc => hc.not_mints

end Routes

end OnreApp.Offers
