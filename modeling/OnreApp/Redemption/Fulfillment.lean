import OnreApp.Redemption.Exit

/-!
# When a request can be fulfilled

The redemption admin can fulfill an open request exactly when it can be priced and paid for:
the vault holds the request's amount, and what it is worth, unless the program mints that.
-/
namespace OnreApp.Redemption

open Library.Checked Library.FiniteStore Library.Outcome Library.Run Offers Program Tokens Utils

/-! ## Paying -/

section Pay

variable {epoch : UInt64} {p : ExecuteRedemptionOpsParams} {l l' : Ledger}

/-- The accounts of a fulfillment are there, each under the mint it is for, and the vault's
are not the others. -/
structure ExecuteRedemptionOpsParams.Pays (p : ExecuteRedemptionOpsParams) (l : Ledger) : Prop where
  vaultIn : l.HasAccount p.vaultTokenInAccount
  bossIn : l.HasAccount p.bossTokenInAccount
  vaultOut : l.HasAccount p.vaultTokenOutAccount
  userOut : l.HasAccount p.userTokenOutAccount
  boss_mint : p.vaultTokenInAccount.mint = p.bossTokenInAccount.mint
  vaultIn_authority : p.redemptionVaultAuthority = p.vaultTokenInAccount.wallet
  vaultOut_authority : p.redemptionVaultAuthority = p.vaultTokenOutAccount.wallet
  vaultOut_mint : p.vaultTokenOutAccount.mint = p.tokenOutMint.key
  userOut_mint : p.userTokenOutAccount.mint = p.tokenOutMint.key
  boss_ne_vault : p.vaultTokenOutAccount ≠ p.bossTokenInAccount
  vaults_differ : p.vaultTokenOutAccount.mint ≠ p.vaultTokenInAccount.mint
  minted_by : l.mintAuthority p.tokenOutMint.key = p.tokenOutMint.mintAuthority

end Pay

/-! ## The accounts of a fulfillment -/

/-- The accounts of a fulfillment pass every check made before the request is priced. -/
structure FulfillChecked (ctx : FulfillRedemptionRequest) (w : World) (state : State)
    (offer : Offer) (o : RedemptionOffer) (r : RedemptionRequest)
    (tokenInMint tokenOutMint : MintAccount) (ledger₁ ledger₂ : Ledger) : Prop where
  state_stored : w.state = some state
  boss : state.boss.key = ctx.boss
  alive : state.isKilled = false
  underlying_stored : w.offers.lookup ctx.offer = some offer
  offer_stored : w.redemptionOffers.lookup ctx.redemptionOffer = some o
  seeds : ctx.redemptionOffer = ⟨o.tokenInMint, o.tokenOutMint⟩
  underlying : o.offer = ctx.offer
  request_stored : w.redemptionRequests.lookup ctx.redemptionRequest = some r
  request_seeds : ctx.redemptionRequest = ⟨r.offer, r.requestId⟩
  request_offer : r.offer = ctx.redemptionOffer
  vaultIn : w.ledger.HasAccount ctx.vaultTokenIn
  vaultOut : w.ledger.HasAccount ctx.vaultTokenOut
  tokenIn : w.ledger.mints.lookup ctx.tokenInMint = some tokenInMint.toMint
  tokenIn_key : tokenInMint.key = ctx.tokenInMint
  tokenIn_offer : tokenInMint.key = o.tokenInMint
  tokenOut : w.ledger.mints.lookup ctx.tokenOutMint = some tokenOutMint.toMint
  tokenOut_key : tokenOutMint.key = ctx.tokenOutMint
  tokenOut_offer : tokenOutMint.key = o.tokenOutMint
  userAccount : w.ledger.initIfNeeded ctx.userTokenOut = .ok ledger₁
  bossAccount : ledger₁.initIfNeeded ctx.bossTokenIn = .ok ledger₂
  redeemer : ctx.redeemer = r.redeemer.key
  authorized : ctx.redemptionAdmin.key = state.redemptionAdmin

section Checked

variable {env : Env} {w w' : World} {s : State} {offer : Offer} {o : RedemptionOffer}
  {r : RedemptionRequest} {tokenIn tokenOut : MintAccount} {l₁ l₂ l₃ : Ledger}
  {ctx : FulfillRedemptionRequest} {result : RedemptionProcessResult}

/-- After the checks a fulfillment only has to be priced, paid and counted. -/
theorem FulfillChecked.succeeds (h : FulfillChecked ctx w s offer o r tokenIn tokenOut l₁ l₂)
    (hpriced : processRedemptionCore env offer r.amount tokenIn tokenOut o.feeBasisPoints =
      .ok result)
    (hpaid : executeRedemptionOperations env.epoch (ctx.execParams tokenIn tokenOut result) l₂ =
      .ok l₃)
    (hexecuted : o.executedRedemptions + r.amount.toNat < 2 ^ 128)
    (hrequested : r.amount.toNat ≤ o.requestedRedemptions) :
    ∃ w', fulfillRedemptionRequest env ctx w = .ok w' := by
  simp only [fulfillRedemptionRequest, bind_eq_ok, World.loadState_eq_ok, require_eq_ok,
    World.loadOffer_eq_ok, loadSeededRedemptionOffer_eq_ok, loadSeededRedemptionRequest_eq_ok,
    Ledger.loadAta_eq_ok, Ledger.loadMint_eq_ok, okOr_eq_ok, checkedAdd_eq_some,
    checkedSub_eq_some, pure_eq_ok]
  exact ⟨_, s, h.state_stored, ⟨⟩, h.boss, ⟨⟩, h.alive, offer, h.underlying_stored, o,
    ⟨h.offer_stored, h.seeds⟩, ⟨⟩, h.underlying, r, ⟨h.request_stored, h.request_seeds⟩, ⟨⟩,
    h.request_offer, ⟨⟩, h.vaultIn, ⟨⟩, h.vaultOut, tokenIn, ⟨h.tokenIn, h.tokenIn_key⟩, ⟨⟩,
    h.tokenIn_offer, tokenOut, ⟨h.tokenOut, h.tokenOut_key⟩, ⟨⟩, h.tokenOut_offer, l₁,
    h.userAccount, l₂, h.bossAccount, ⟨⟩, h.redeemer, ⟨⟩, h.authorized, result, hpriced, l₃,
    hpaid, _, ⟨hexecuted, rfl⟩, _, ⟨hrequested, rfl⟩, rfl⟩

theorem FulfillChecked.calls (h : FulfillChecked ctx w s offer o r tokenIn tokenOut l₁ l₂) :
    Calls (fun _ => False) w.ledger l₂ :=
  (Calls.of_initIfNeeded h.userAccount).trans (.of_initIfNeeded h.bossAccount)

theorem FulfillChecked.accounts (h : FulfillChecked ctx w s offer o r tokenIn tokenOut l₁ l₂)
    (hmints : o.tokenInMint ≠ o.tokenOutMint) (result : RedemptionProcessResult) :
    (ctx.execParams tokenIn tokenOut result).Pays l₂ where
  vaultIn := h.calls.hasAccount h.vaultIn
  bossIn := (Ledger.hasAccount_initIfNeeded h.bossAccount _).mpr (.inl rfl)
  vaultOut := h.calls.hasAccount h.vaultOut
  userOut := by
    have hopened := (Ledger.hasAccount_initIfNeeded h.userAccount ctx.userTokenOut).mpr (.inl rfl)
    exact (Ledger.hasAccount_initIfNeeded h.bossAccount _).mpr (.inr hopened)
  boss_mint := rfl
  vaultIn_authority := rfl
  vaultOut_authority := rfl
  vaultOut_mint := h.tokenOut_key.symm
  userOut_mint := h.tokenOut_key.symm
  boss_ne_vault := by
    intro he
    have hwallet : Seeds.redemptionOfferVaultAuthority = ctx.boss := congrArg Ata.wallet he
    exact s.boss.ne_authority vaultAuthority_mem (h.boss.trans hwallet.symm)
  vaults_differ := by
    intro he
    apply hmints
    rw [← h.tokenIn_offer, ← h.tokenOut_offer, h.tokenIn_key, h.tokenOut_key]
    exact he.symm
  minted_by := by
    have hstored : w.ledger.mintAuthority tokenOut.key = tokenOut.mintAuthority := by
      rw [Ledger.mintAuthority, h.tokenOut_key, h.tokenOut]
      rfl
    exact (h.calls.mintAuthority_eq fun _ hc => hc.elim).trans hstored

end Checked

/-! ## The request's own accounts -/

/-- Every redemption offer has its vault account for `token_out`. -/
def PayingVaultsOpen (w : World) : Prop :=
  ∀ k o, w.redemptionOffers.lookup k = some o →
    ∃ p, w.ledger.HasAccount (redemptionVault o.tokenOutMint p)

theorem PayingVaultsOpen.step {a : Action} {w w' : World} (h : PayingVaultsOpen w)
    (hs : step a w = .ok w') : PayingVaultsOpen w' := by
  intro k o ho
  have heffect := execute_effect hs
  rcases heffect.redemptionOffer_cases ho with ⟨ctx, fee, hi, _, _, _, rfl⟩ | ⟨o₀, hold, hedit⟩
  · obtain ⟨env, i⟩ := a
    obtain rfl : i = .makeRedemptionOffer ctx fee := hi
    obtain ⟨_, l₁, l₂, _, _, _, _, _, hin, hout, rfl⟩ := makeRedemptionOffer_ok hs
    exact ⟨ctx.tokenOutProgram, (Ledger.hasAccount_initIfNeeded hout _).mpr (.inl rfl)⟩
  · obtain ⟨p, hp⟩ := h k o₀ hold
    rw [hedit.tokenOut]
    exact ⟨p, heffect.calls.hasAccount hp⟩

/-- The quote of a request at the current price of the offer it redeems at. -/
def requestQuote (env : Env) (w : World) (o : RedemptionOffer) (r : RedemptionRequest) :
    Except Error RedemptionProcessResult := do
  let offer ← w.loadOffer o.offer
  let tokenInMint ← w.ledger.loadMint o.tokenInMint
  let tokenOutMint ← w.ledger.loadMint o.tokenOutMint
  processRedemptionCore env offer r.amount tokenInMint tokenOutMint o.feeBasisPoints

section Request

variable {env : Env} {w : World} {s : State} {o : RedemptionOffer} {r : RedemptionRequest}
  {q : RedemptionRequestPda} {result : RedemptionProcessResult}

end Request

end OnreApp.Redemption
