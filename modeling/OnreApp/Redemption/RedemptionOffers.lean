import OnreApp.Offers.MakeOffer

/-!
# Making a redemption offer and setting its fee

A redemption offer for a pair of mints rests on the offer of the inverted pair.
-/
namespace OnreApp.Redemption

open Library.Outcome Program Tokens

/-- The redemption vault's associated token account for a mint. It holds what is locked by
requests and what redemptions are paid from, for all redemption offers together. -/
def redemptionVault (mint : Pubkey) (program : TokenProgram) : Ata :=
  ⟨Seeds.redemptionOfferVaultAuthority, mint, program⟩

structure MakeRedemptionOffer where
  tokenInMint : Pubkey
  tokenInProgram : TokenProgram
  tokenOutMint : Pubkey
  tokenOutProgram : TokenProgram
  signer : Signer

namespace MakeRedemptionOffer

/-- The underlying offer, seeded with the mints in the opposite order. -/
def offerPda (ctx : MakeRedemptionOffer) : OfferPda := ⟨ctx.tokenOutMint, ctx.tokenInMint⟩

def redemptionOfferPda (ctx : MakeRedemptionOffer) : RedemptionOfferPda :=
  ⟨ctx.tokenInMint, ctx.tokenOutMint⟩

end MakeRedemptionOffer

def makeRedemptionOffer (ctx : MakeRedemptionOffer) (feeBasisPoints : UInt16) (w : World) :
    Except Error World := do
  let state ← w.loadState
  let _ ← w.loadOffer ctx.offerPda
  let tokenInMint ← w.ledger.loadMint ctx.tokenInMint
  let ledger ← w.ledger.initIfNeeded (redemptionVault tokenInMint.key ctx.tokenInProgram)
  let tokenOutMint ← w.ledger.loadMint ctx.tokenOutMint
  let ledger ← ledger.initIfNeeded (redemptionVault tokenOutMint.key ctx.tokenOutProgram)
  require (w.redemptionOffers.lookup ctx.redemptionOfferPda = none) (.anchor .accountAlreadyInUse)
  require (ctx.signer = state.boss ∨ ctx.signer.key = state.redemptionAdmin)
    (.makeRedemptionOffer .unauthorized)
  require (feeBasisPoints.toNat ≤ maxAllowedFeeBps) (.makeRedemptionOffer .invalidFee)
  let redemptionOffer : RedemptionOffer :=
    { offer := ctx.offerPda, tokenInMint := tokenInMint.key, tokenOutMint := tokenOutMint.key,
      feeBasisPoints, executedRedemptions := 0, requestedRedemptions := 0, requestCounter := 0 }
  pure ((w.setLedger ledger).setRedemptionOffer ctx.redemptionOfferPda redemptionOffer)

structure UpdateRedemptionOfferFee where
  redemptionOffer : RedemptionOfferPda
  boss : Signer

/-- `seeds = [seeds::REDEMPTION_OFFER, redemption_offer.token_in_mint,
redemption_offer.token_out_mint]` on the account stored at `k`. -/
def loadSeededRedemptionOffer (w : World) (k : RedemptionOfferPda) :
    Except Error RedemptionOffer := do
  let redemptionOffer ← w.loadRedemptionOffer k
  require (k = ⟨redemptionOffer.tokenInMint, redemptionOffer.tokenOutMint⟩)
    (.anchor .constraintSeeds)
  pure redemptionOffer

def updateRedemptionOfferFee (ctx : UpdateRedemptionOfferFee) (newFeeBasisPoints : UInt16)
    (w : World) : Except Error World := do
  let redemptionOffer ← loadSeededRedemptionOffer w ctx.redemptionOffer
  let state ← w.loadState
  require (state.boss = ctx.boss) (.updateRedemptionOfferFee .unauthorized)
  require (newFeeBasisPoints.toNat ≤ maxAllowedFeeBps) (.updateRedemptionOfferFee .invalidFee)
  require (newFeeBasisPoints ≠ redemptionOffer.feeBasisPoints)
    (.updateRedemptionOfferFee .noChange)
  pure (w.setRedemptionOffer ctx.redemptionOffer
    { redemptionOffer with feeBasisPoints := newFeeBasisPoints })

variable {w w' : World}

@[simp] theorem loadSeededRedemptionOffer_eq_ok {k : RedemptionOfferPda} {r : RedemptionOffer} :
    loadSeededRedemptionOffer w k = .ok r ↔
      w.redemptionOffers.lookup k = some r ∧ k = ⟨r.tokenInMint, r.tokenOutMint⟩ := by
  simp only [loadSeededRedemptionOffer, bind_eq_ok, World.loadRedemptionOffer_eq_ok,
    require_eq_ok, pure_eq_ok]
  constructor
  · rintro ⟨_, hr, _, hk, rfl⟩
    exact ⟨hr, hk⟩
  · rintro ⟨hr, hk⟩
    exact ⟨r, hr, ⟨⟩, hk, rfl⟩

theorem loadSeededRedemptionOffer_avoids {e : Error} {k : RedemptionOfferPda}
    (ha : ∀ c, .anchor c ≠ e) : Avoids e (loadSeededRedemptionOffer w k) := by
  refine avoids_bind (avoids_okOr _ (ha _)) fun _ _ => ?_
  exact avoids_bind (avoids_require _ (ha _)) fun _ _ => avoids_pure _ _

/-- A new redemption offer starts with empty counters, over the inverted offer. -/
theorem makeRedemptionOffer_ok {ctx : MakeRedemptionOffer} {fee : UInt16}
    (h : makeRedemptionOffer ctx fee w = .ok w') :
    ∃ (state : State) (ledger₁ ledger₂ : Ledger), w.state = some state ∧
      (ctx.signer = state.boss ∨ ctx.signer.key = state.redemptionAdmin) ∧
      w.redemptionOffers.lookup ctx.redemptionOfferPda = none ∧
      w.offers.lookup ctx.offerPda ≠ none ∧
      fee.toNat ≤ maxAllowedFeeBps ∧
      w.ledger.initIfNeeded (redemptionVault ctx.tokenInMint ctx.tokenInProgram) = .ok ledger₁ ∧
      ledger₁.initIfNeeded (redemptionVault ctx.tokenOutMint ctx.tokenOutProgram) = .ok ledger₂ ∧
      w' = (w.setLedger ledger₂).setRedemptionOffer ctx.redemptionOfferPda
        ⟨ctx.offerPda, ctx.tokenInMint, ctx.tokenOutMint, 0, 0, fee, 0⟩ := by
  simp only [makeRedemptionOffer, bind_eq_ok, World.loadState_eq_ok, World.loadOffer_eq_ok,
    Ledger.loadMint_eq_ok, require_eq_ok, pure_eq_ok] at h
  obtain ⟨state, hs, o, ho, m, ⟨_, hm⟩, l₁, h₁, m', ⟨_, hm'⟩, l₂, h₂, _, hnew, _, hsig, _, hfee,
    rfl⟩ := h
  rw [hm] at h₁ ⊢
  rw [hm'] at h₂ ⊢
  exact ⟨state, l₁, l₂, hs, hsig, hnew, ho ▸ Option.some_ne_none o, hfee, h₁, h₂, rfl⟩

theorem updateRedemptionOfferFee_ok {ctx : UpdateRedemptionOfferFee} {fee : UInt16}
    (h : updateRedemptionOfferFee ctx fee w = .ok w') :
    ∃ state r, w.state = some state ∧ state.boss = ctx.boss ∧
      w.redemptionOffers.lookup ctx.redemptionOffer = some r ∧
      fee.toNat ≤ maxAllowedFeeBps ∧
      w' = w.setRedemptionOffer ctx.redemptionOffer { r with feeBasisPoints := fee } := by
  simp only [updateRedemptionOfferFee, bind_eq_ok, loadSeededRedemptionOffer_eq_ok,
    World.loadState_eq_ok, require_eq_ok, pure_eq_ok] at h
  obtain ⟨r, ⟨hr, _⟩, state, hs, _, hb, _, hfee, _, _, rfl⟩ := h
  exact ⟨state, r, hs, hb, hr, hfee, rfl⟩

end OnreApp.Redemption
