import OnreApp.Redemption.Resolution
import OnreApp.Redemption.Solvency

/-!
# The way out of a request

Cancelling is the redeemer's own way out. It closes the request's account to the redemption
admin, so that account has to be one that can be written and not the request's own: the default
key, which a program that never set its admin still has, cannot be written.
-/
namespace OnreApp.Redemption

open Library.Checked Library.FiniteStore Library.Outcome Library.Run Program Tokens Utils

/-- Every redemption offer has its vault account for `token_in`. -/
def VaultsOpen (w : World) : Prop :=
  ∀ k o, w.redemptionOffers.lookup k = some o →
    ∃ p, w.ledger.HasAccount (redemptionVault o.tokenInMint p)

/-- Making a redemption offer opens the account; no call closes one. -/
theorem VaultsOpen.step {a : Action} {w w' : World} (h : VaultsOpen w) (hs : step a w = .ok w') :
    VaultsOpen w' := by
  intro k o ho
  have heffect := execute_effect hs
  rcases heffect.redemptionOffer_cases ho with ⟨ctx, fee, hi, _, _, _, rfl⟩ | ⟨o₀, hold, hedit⟩
  · obtain ⟨env, i⟩ := a
    obtain rfl : i = .makeRedemptionOffer ctx fee := hi
    obtain ⟨_, l₁, l₂, _, _, _, _, _, hin, hout, rfl⟩ := makeRedemptionOffer_ok hs
    have hopened : l₁.HasAccount (redemptionVault ctx.tokenInMint ctx.tokenInProgram) :=
      (Ledger.hasAccount_initIfNeeded hin _).mpr (.inl rfl)
    exact ⟨ctx.tokenInProgram, (Ledger.hasAccount_initIfNeeded hout _).mpr (.inr hopened)⟩
  · obtain ⟨p, hp⟩ := h k o₀ hold
    rw [hedit.tokenIn]
    exact ⟨p, heffect.calls.hasAccount hp⟩

section Cancel

variable {env : Env} {w : World} {s : State} {o : RedemptionOffer} {r : RedemptionRequest}
  {q : RedemptionRequestPda}

end Cancel

end OnreApp.Redemption
