import OnreApp.Offers.Vectors

/-!
# Making an offer and setting its fee
-/
namespace OnreApp.Offers

open Library.Outcome Program Tokens

/-- The offer vault's associated token account for a mint. -/
def offerVault (mint : Pubkey) (program : TokenProgram) : Ata :=
  ⟨Seeds.offerVaultAuthority, mint, program⟩

structure MakeOffer where
  tokenInMint : Pubkey
  tokenInProgram : TokenProgram
  tokenOutMint : Pubkey
  boss : Signer

def MakeOffer.offerPda (ctx : MakeOffer) : OfferPda := ⟨ctx.tokenInMint, ctx.tokenOutMint⟩

/-- The account as `load_init` and the body of `make_offer` leave it. -/
def newOffer (tokenInMint tokenOutMint : Pubkey) (feeBasisPoints : UInt16)
    (needsApproval allowPermissionless : Bool) : Offer :=
  let offer : Offer :=
    { tokenInMint, tokenOutMint, vectors := List.Vector.replicate maxVectors OfferVector.default,
      feeBasisPoints, needsApprovalFlag := 0, allowPermissionlessFlag := 0 }
  (offer.setApproval needsApproval).setPermissionless allowPermissionless

def makeOffer (ctx : MakeOffer) (feeBasisPoints : UInt16)
    (needsApproval allowPermissionless : Bool) (w : World) : Except Error World := do
  let tokenInMint ← w.ledger.loadMint ctx.tokenInMint
  let ledger ← w.ledger.initIfNeeded (offerVault tokenInMint.key ctx.tokenInProgram)
  let tokenOutMint ← w.ledger.loadMint ctx.tokenOutMint
  require (w.offers.lookup ctx.offerPda = none) (.anchor .accountAlreadyInUse)
  let _ ← loadBossState w ctx.boss
  require (feeBasisPoints.toNat ≤ maxAllowedFeeBps) (.makeOffer .invalidFee)
  let offer := newOffer tokenInMint.key tokenOutMint.key feeBasisPoints needsApproval
    allowPermissionless
  pure { w with offers := w.offers.insert ctx.offerPda offer, ledger }

abbrev UpdateOfferFee := BossOfferAccounts

def updateOfferFee (ctx : UpdateOfferFee) (newFeeBasisPoints : UInt16) (w : World) :
    Except Error World := do
  let offer ← ctx.load w
  require (newFeeBasisPoints.toNat ≤ maxBasisPoints) (.updateOfferFee .invalidFee)
  pure (w.setOffer ctx.offerPda { offer with feeBasisPoints := newFeeBasisPoints })

theorem makeOffer_ok {ctx : MakeOffer} {fee : UInt16} {needsApproval permissionless : Bool}
    {w w' : World} (h : makeOffer ctx fee needsApproval permissionless w = .ok w') :
    ∃ s l, w.state = some s ∧ s.boss = ctx.boss ∧ w.offers.lookup ctx.offerPda = none ∧
      w.ledger.initIfNeeded (offerVault ctx.tokenInMint ctx.tokenInProgram) = .ok l ∧
      w' = { w with
        offers := w.offers.insert ctx.offerPda
          (newOffer ctx.tokenInMint ctx.tokenOutMint fee needsApproval permissionless)
        ledger := l } := by
  simp only [makeOffer, bind_eq_ok, Ledger.loadMint_eq_ok, require_eq_ok, loadBossState_eq_ok,
    pure_eq_ok] at h
  obtain ⟨m, ⟨_, hm⟩, l, hl, m', ⟨_, hm'⟩, _, hnew, s, ⟨hs, hb⟩, _, _, rfl⟩ := h
  rw [hm] at hl ⊢
  rw [hm']
  exact ⟨s, l, hs, hb, hnew, hl, rfl⟩

theorem updateOfferFee_ok {ctx : UpdateOfferFee} {fee : UInt16} {w w' : World}
    (h : updateOfferFee ctx fee w = .ok w') :
    ∃ o, ctx.load w = .ok o ∧ w' = w.setOffer ctx.offerPda { o with feeBasisPoints := fee } := by
  simp only [updateOfferFee, bind_eq_ok, pure_eq_ok] at h
  obtain ⟨o, ho, _, _, rfl⟩ := h
  exact ⟨o, ho, rfl⟩

theorem makeOffer_fee_le {ctx : MakeOffer} {fee : UInt16} {needsApproval permissionless : Bool}
    {w w' : World} (h : makeOffer ctx fee needsApproval permissionless w = .ok w') :
    fee.toNat ≤ maxAllowedFeeBps := by
  simp only [makeOffer, bind_eq_ok, require_eq_ok] at h
  obtain ⟨_, _, _, _, _, _, _, _, _, _, _, hfee, _⟩ := h
  exact hfee

/-- An update is compared with 100%, not with the ceiling of a new offer. -/
theorem updateOfferFee_fee_le {ctx : UpdateOfferFee} {fee : UInt16} {w w' : World}
    (h : updateOfferFee ctx fee w = .ok w') : fee.toNat ≤ maxBasisPoints := by
  simp only [updateOfferFee, bind_eq_ok, require_eq_ok] at h
  obtain ⟨_, _, _, hfee, _⟩ := h
  exact hfee

section NewOffer

variable (tokenInMint tokenOutMint : Pubkey) (fee : UInt16) (needsApproval permissionless : Bool)

theorem slots_newOffer :
    (newOffer tokenInMint tokenOutMint fee needsApproval permissionless).slots =
      List.replicate maxVectors OfferVector.default := rfl

/-- A new offer stores no vector. -/
theorem stored_newOffer :
    stored (newOffer tokenInMint tokenOutMint fee needsApproval permissionless) = ∅ := by
  refine Set.eq_empty_of_forall_notMem fun v hv => ?_
  obtain ⟨hs, h0⟩ := hv
  rw [slots_newOffer] at hs
  exact h0 (congrArg OfferVector.startTime (List.eq_of_mem_replicate hs))

theorem distinctStarts_newOffer :
    DistinctStarts (newOffer tokenInMint tokenOutMint fee needsApproval permissionless) := by
  intro i j u v hi hj huv hu
  rw [slots_newOffer] at hi
  have hm := List.eq_of_mem_replicate (List.mem_iff_getElem?.mpr ⟨i, hi⟩)
  exact absurd (congrArg OfferVector.startTime hm) hu

end NewOffer

end OnreApp.Offers
