import OnreApp.Redemption.Solvency

/-!
# What a new request records and what the vault received

A request records the amount that was asked for. The vault receives that amount less what
the mint of `token_in` withholds from a transfer in the epoch, which the instruction does not
look at.
-/
namespace OnreApp.Redemption

open Library.FiniteStore Library.Outcome Library.Rounding Library.Run Program Tokens Utils

/-- The mint withholds nothing from a transfer of `amount` in `epoch`: it has no transfer-fee
extension, or one of the factors of its fee is zero. -/
def TransfersInFull (l : Ledger) (epoch : UInt64) (mint : Pubkey) (amount : UInt64) : Prop :=
  ∀ m config, l.mints.lookup mint = some m → m.transferFeeConfig = some config →
    amount = 0 ∨ (config.getEpochFee epoch).transferFeeBasisPoints = 0 ∨
      (config.getEpochFee epoch).maximumFee = 0

theorem transfersInFull_iff {l : Ledger} {epoch : UInt64} {mint : Pubkey} {amount : UInt64} :
    TransfersInFull l epoch mint amount ↔ l.transferFee epoch mint amount.toNat = 0 := by
  have hzero : ∀ config : TransferFeeConfig,
      min ((amount.toNat * (config.getEpochFee epoch).transferFeeBasisPoints.toNat) ⌈/⌉
        maxBasisPoints) (config.getEpochFee epoch).maximumFee.toNat = 0 ↔
      amount = 0 ∨ (config.getEpochFee epoch).transferFeeBasisPoints = 0 ∨
        (config.getEpochFee epoch).maximumFee = 0 := by
    intro config
    rw [Nat.min_eq_zero_iff, ceilDiv_eq_zero_iff maxBasisPoints_pos, Nat.mul_eq_zero, or_assoc,
      ← UInt64.toNat_inj, ← UInt16.toNat_inj, ← UInt64.toNat_inj]
    rfl
  unfold TransfersInFull Ledger.transferFee
  cases hm : l.mints.lookup mint with
  | none => exact iff_of_true (fun m config h => by cases h) rfl
  | some m =>
    show _ ↔ m.transferFee epoch amount.toNat = 0
    unfold Mint.transferFee
    cases hc : m.transferFeeConfig with
    | none =>
      refine iff_of_true (fun m' config h h' => ?_) rfl
      rw [← Option.some.inj h, hc] at h'
      cases h'
    | some config =>
      constructor
      · intro h
        exact (hzero config).mpr (h m config rfl hc)
      · intro h m' config' hm' hc'
        rw [← Option.some.inj hm', hc] at hc'
        rw [← Option.some.inj hc']
        exact (hzero config).mp h

/-- What the vault receives with a request. -/
theorem RequestCreated.received {env : Env} {ctx : CreateRedemptionRequest} {amount : UInt64}
    {w w' : World} {s : State} {o : RedemptionOffer} {l : Ledger}
    (h : RequestCreated env ctx amount w w' s o l) :
    vaultBalance w'.ledger ctx.tokenInMint = vaultBalance w.ledger ctx.tokenInMint +
      (amount.toNat - w.ledger.transferFee env.epoch ctx.tokenInMint amount.toNat) := by
  have hledger : w'.ledger = l := congrArg World.ledger h.result
  obtain ⟨hcan, rfl⟩ := transferTokens_eq_ok.mp h.locked
  have hvault' : (w.ledger.transfer env.epoch _ _ _ _ hcan).HasAccount _ :=
    (Ledger.hasAccount_transfer hcan).mpr hcan.2.1
  have hne := ne_redemptionVault (m := ctx.tokenInMint) (p := ctx.tokenProgram) ctx.redeemer
    (a := ⟨ctx.redeemer.key, ctx.tokenInMint, ctx.tokenProgram⟩) rfl
  rw [hledger, vaultBalance_of_account hvault', vaultBalance_of_account hcan.2.1,
    Ledger.amount_transfer hcan, if_neg hne.symm, if_pos rfl]

/-- A request that is made stores the amount asked for and adds it to what its offer counts as
requested. The vault's balance rises by that amount exactly if the mint withholds nothing. -/
theorem request_credited_iff (env : Env) (ctx : CreateRedemptionRequest) (amount : UInt64)
    (w w' : World) (h : createRedemptionRequest env ctx amount w = .ok w') :
    ∃ o o' r, w.redemptionOffers.lookup ctx.redemptionOffer = some o ∧
      w'.redemptionOffers.lookup ctx.redemptionOffer = some o' ∧
      w'.redemptionRequests.lookup ⟨ctx.redemptionOffer, o.requestCounter⟩ = some r ∧
      o'.requestedRedemptions = o.requestedRedemptions + r.amount.toNat ∧ r.amount = amount ∧
      ctx.tokenInMint = o.tokenInMint ∧
      (vaultBalance w'.ledger ctx.tokenInMint =
          vaultBalance w.ledger ctx.tokenInMint + r.amount.toNat ↔
        TransfersInFull w.ledger env.epoch ctx.tokenInMint amount) := by
  obtain ⟨s, o, l, hc⟩ := createRedemptionRequest_ok h
  have hreceived := hc.received
  refine ⟨o, RedemptionOffer.request o amount,
    ⟨ctx.redemptionOffer, o.requestCounter, ctx.redeemer, amount⟩,
    hc.offer_stored, ?_, ?_, rfl, rfl, hc.tokenIn, ?_⟩
  · rw [hc.result]
    exact (lookup_insert_eq ..).trans (if_pos rfl)
  · rw [hc.result]
    exact (lookup_insert_eq ..).trans (if_pos rfl)
  · rw [hreceived, transfersInFull_iff]
    constructor
    · intro heq
      -- Of nothing, nothing is withheld.
      by_cases h0 : amount = 0
      · exact transfersInFull_iff.mp fun _ _ _ _ => .inl h0
      · have hpos : amount.toNat ≠ 0 := fun hz => h0 (UInt64.toNat_inj.mp hz)
        simp only at heq
        omega
    · intro hfee
      rw [hfee, Nat.sub_zero]

/-- Alice's request, of a mint without the extension. -/
theorem request_credited_iff_sample :
    let w := run step (World.genesis (Sample.ledger Sample.issuer)) Sample.setup
    ∃ w', createRedemptionRequest (Sample.env 1000) ⟨⟨Sample.onyc, Sample.usdc⟩, Sample.alice,
        Sample.onyc, .token⟩ 500000000 w = .ok w' ∧
      vaultBalance w'.ledger Sample.onyc = vaultBalance w.ledger Sample.onyc + 500000000 := by
  intro w
  obtain ⟨w', hw⟩ : ∃ w', createRedemptionRequest (Sample.env 1000)
      ⟨⟨Sample.onyc, Sample.usdc⟩, Sample.alice, Sample.onyc, .token⟩ 500000000 w = .ok w' :=
    exists_ok_of_toBool (by decide +kernel)
  obtain ⟨_, _, r, _, _, _, _, hamount, _, hcredited⟩ := request_credited_iff _ _ _ _ _ hw
  have hfull : TransfersInFull w.ledger (Sample.env 1000).epoch Sample.onyc 500000000 :=
    transfersInFull_iff.mpr (by decide +kernel)
  have hrise := hcredited.mpr hfull
  rw [hamount] at hrise
  exact ⟨w', hw, hrise⟩

/-! ## A mint with a fee -/

/-- The ledger of a deployment whose USDC is a Token-2022 mint with a fee of 1%. -/
def feeLedger : Ledger :=
  Ledger.issueAll
    (((∅ : Store Pubkey Mint).insert Sample.onyc ⟨.token, 9, some Sample.issuer, 0, none⟩).insert
      Sample.usdc ⟨.token2022, 6, some Sample.issuer, 0,
        some ⟨⟨0, 1000000, 100⟩, ⟨0, 1000000, 100⟩⟩⟩)
    [(⟨Sample.bob.key, Sample.usdc, .token2022⟩, 1000000)]

/-- A redemption offer that takes USDC in. -/
def feeSetup : List Action :=
  [Sample.act (.initializeState ⟨Sample.boss, some programDataAddress, Sample.onyc⟩),
    Sample.act (.makeOffer ⟨Sample.onyc, .token, Sample.usdc, Sample.boss⟩ 0 false true),
    Sample.act (.makeRedemptionOffer ⟨Sample.usdc, .token2022, Sample.onyc, .token, Sample.boss⟩ 0)]

/-- Bob's request of 0.6 USDC is recorded in full; the vault receives 0.594. -/
theorem request_credited_short :
    ¬ ∀ (l : Ledger) (actions : List Action) (env : Env) (ctx : CreateRedemptionRequest)
      (amount : UInt64) (w' : World) (o : RedemptionOffer) (r : RedemptionRequest),
      createRedemptionRequest env ctx amount (run step (World.genesis l) actions) = .ok w' →
      (run step (World.genesis l) actions).redemptionOffers.lookup ctx.redemptionOffer = some o →
      w'.redemptionRequests.lookup ⟨ctx.redemptionOffer, o.requestCounter⟩ = some r →
      vaultBalance w'.ledger ctx.tokenInMint =
        vaultBalance (run step (World.genesis l) actions).ledger ctx.tokenInMint +
          r.amount.toNat := by
  intro h
  obtain ⟨w', hw, hafter⟩ : ∃ w', createRedemptionRequest (Sample.env 1000)
      ⟨⟨Sample.usdc, Sample.onyc⟩, Sample.bob, Sample.usdc, .token2022⟩ 600000
        (run step (World.genesis feeLedger) feeSetup) = .ok w' ∧
      (w'.redemptionRequests.lookup ⟨⟨Sample.usdc, Sample.onyc⟩, 0⟩,
        vaultBalance w'.ledger Sample.usdc) =
      (some ⟨⟨Sample.usdc, Sample.onyc⟩, 0, Sample.bob, 600000⟩, 594000) :=
    exists_ok_of_map (by decide +kernel)
  obtain ⟨hrecorded, hreceived⟩ := Prod.mk.inj hafter
  have hbefore : vaultBalance (run step (World.genesis feeLedger) feeSetup).ledger
      Sample.usdc = 0 := by decide +kernel
  have hoffer : (run step (World.genesis feeLedger) feeSetup).redemptionOffers.lookup
      ⟨Sample.usdc, Sample.onyc⟩ = some ⟨⟨Sample.onyc, Sample.usdc⟩, Sample.usdc, Sample.onyc,
        0, 0, 0, 0⟩ := by decide +kernel
  have hcredited := h feeLedger feeSetup _ _ _ w' _ _ hw hoffer hrecorded
  rw [show CreateRedemptionRequest.tokenInMint _ = Sample.usdc from rfl, hreceived,
    hbefore] at hcredited
  exact absurd hcredited (by decide)

end OnreApp.Redemption
