import OnreApp.Library.Reorder
import OnreApp.Redemption.Exit
import OnreApp.Tokens.Books

/-!
# A run on the redemption vault

Redeemers who cancel one after another draw on the same vault. Whether all of them get their
tokens back depends on what the vault holds and not on who comes first.
-/
namespace OnreApp.Redemption

open Library.Checked Library.FiniteStore Library.Outcome Library.Reorder Library.Run Program Tokens
  Utils

/-- The address of an open request. -/
def requestKey (r : RedemptionRequest) : RedemptionRequestPda := ⟨r.offer, r.requestId⟩

/-- The accounts with which its redeemer cancels a request. -/
def ownCancel (w : World) (state : State) (r : RedemptionRequest) : CancelRedemptionRequest where
  redemptionOffer := r.offer
  redemptionRequest := requestKey r
  signer := r.redeemer
  redeemer := r.redeemer.key
  redemptionAdmin := state.redemptionAdmin
  tokenInMint := r.offer.tokenInMint
  tokenProgram := (booksOf w.ledger).program r.offer.tokenInMint

def cancelOwn (env : Env) (r : RedemptionRequest) (w : World) : Except Error World := do
  let state ← w.loadState
  cancelRedemptionRequest env (ownCancel w state r) w

/-- The requests are open, each once, in a state of the program that can cancel them. -/
structure Leaving (env : Env) (l : Ledger) (s : State) (rs : List RedemptionRequest) (w : World) :
    Prop where
  reached : ∃ actions, run step (World.genesis l) actions = w
  stored : w.state = some s
  not_self : ∀ r ∈ rs, env.redemptionRequestAddress (requestKey r) ≠ s.redemptionAdmin
  isOpen : ∀ r ∈ rs, w.redemptionRequests.lookup (requestKey r) = some r
  nodup : (rs.map requestKey).Nodup

section Draws

variable {env : Env} {l : Ledger} {s : State} {r : RedemptionRequest} {rs : List RedemptionRequest}
  {w w' : World}

/-- Cancelling draws on the vault and on nothing else of it. -/
theorem RequestCancelled.drawn {ctx : CancelRedemptionRequest} {o : RedemptionOffer}
    {l₁ l₂ : Ledger} (h : RequestCancelled env ctx w w' s o r l₁ l₂) (m : Pubkey) :
    vaultBalance w'.ledger m + (if r.offer.tokenInMint = m then r.amount.toNat else 0) =
      vaultBalance w.ledger m := by
  have htokenIn : r.offer.tokenInMint = ctx.tokenInMint := by
    rw [h.request_offer, h.seeds, h.tokenIn]
  have hledger : w'.ledger = l₂ := by rw [h.result]
  obtain ⟨hcan, _⟩ := transferTokens_eq_ok.mp h.returned
  have hcalls : Calls (fun _ => True) l₁ l₂ := transferTokens_calls h.returned trivial
  have hdebit := vaultBalance_debit (m := m) hcalls hcan.1
    fun a ha => transferTokens_debit h.returned
      fun he => h.redeemer_ne_vault ((congrArg Ata.wallet he).symm.trans ha)
  rw [vaultBalance_initIfNeeded h.redeemerAccount] at hdebit
  rw [htokenIn, hledger, ← hdebit]
  simp only [eq_comm]

/-- A cancellation leaves the other requests as they are. -/
theorem Leaving.cancel (h : Leaving env l s (r :: rs) w) (hok : cancelOwn env r w = .ok w') :
    Leaving env l s rs w' ∧ ∀ m, vaultBalance w'.ledger m +
      (if r.offer.tokenInMint = m then r.amount.toNat else 0) = vaultBalance w.ledger m := by
  obtain ⟨actions, hw⟩ := h.reached
  rw [cancelOwn, World.loadState_eq_ok.mpr h.stored, ok_bind] at hok
  obtain ⟨s', o, r', l₁, l₂, hc⟩ := cancelRedemptionRequest_ok hok
  have hr := h.isOpen r List.mem_cons_self
  obtain rfl : r = r' := Option.some.inj (hr.symm.trans hc.request_stored)
  refine ⟨⟨⟨actions ++ [⟨env, .cancelRedemptionRequest (ownCancel w s r)⟩], ?_⟩, ?_, ?_, ?_, ?_⟩,
    hc.drawn⟩
  · rw [run_concat, hw]
    exact exec_ok hok
  · rw [hc.result]
    exact h.stored
  · exact fun r₁ hr₁ => h.not_self r₁ (List.mem_cons_of_mem r hr₁)
  · intro r₁ hr₁
    have hne : requestKey r₁ ≠ requestKey r := by
      intro he
      have hmem := List.mem_map_of_mem (f := requestKey) hr₁
      rw [he] at hmem
      exact (List.nodup_cons.mp h.nodup).1 hmem
    rw [hc.result]
    exact (lookup_erase_eq _ _ _).trans
      ((if_neg hne).trans (h.isOpen r₁ (List.mem_cons_of_mem _ hr₁)))
  · exact (List.nodup_cons.mp h.nodup).2

end Draws

end OnreApp.Redemption
