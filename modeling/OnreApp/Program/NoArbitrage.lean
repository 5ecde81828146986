import OnreApp.Program.VaultAccounting
import OnreApp.Tokens.Valuation

/-!
# Nobody profits at a fair price

Fix what one unit of each mint is worth. As long as no exchange is a bargain at its offer's
price, no group of wallets grows richer, whatever its members do and in whatever order: fees
and rounding only take, and what a request locks counts as its redeemer's until it is
resolved.
-/
namespace OnreApp.Program

open Library.Balance Library.FiniteStore Library.Outcome Library.Run Offers Redemption Tokens Utils

/-! ## Exchange rates -/

/-- `num` units of `token_out` for every `den` units of `token_in`. -/
structure Rate where
  tokenIn : Pubkey
  tokenOut : Pubkey
  num : ℕ
  den : ℕ

/-- The rate of a take: the price is of one whole `token_out`. -/
def takeRate (env : Env) (ctx : TakeOffer) (w : World) : Except Error Rate := do
  let offer ← w.loadOffer ctx.offerPda
  let tokenInMint ← w.ledger.loadMint ctx.tokenInMint
  let tokenOutMint ← w.ledger.loadMint ctx.tokenOutMint
  let price ← currentPrice env offer
  pure { tokenIn := ctx.tokenInMint, tokenOut := ctx.tokenOutMint,
         num := 10 ^ (tokenOutMint.decimals.toNat + priceDecimals),
         den := price.toNat * 10 ^ tokenInMint.decimals.toNat }

/-- The rate of a fulfillment: the price is of one whole `token_in`. -/
def redemptionRate (env : Env) (ctx : FulfillRedemptionRequest) (w : World) :
    Except Error Rate := do
  let offer ← w.loadOffer ctx.offer
  let tokenInMint ← w.ledger.loadMint ctx.tokenInMint
  let tokenOutMint ← w.ledger.loadMint ctx.tokenOutMint
  let price ← currentPrice env offer
  pure { tokenIn := ctx.tokenInMint, tokenOut := ctx.tokenOutMint,
         num := price.toNat * 10 ^ tokenOutMint.decimals.toNat,
         den := 10 ^ (tokenInMint.decimals.toNat + priceDecimals) }

/-- The rate of an action that exchanges tokens. -/
def exchangeRate (a : Action) (w : World) : Option Rate :=
  match a.instruction with
  | .takeOffer ctx _ _ => (takeRate a.env ctx w).toOption
  | .takeOfferPermissionless ctx _ _ => (takeRate a.env ctx.toTakeOffer w).toOption
  | .fulfillRedemptionRequest ctx => (redemptionRate a.env ctx w).toOption
  | _ => none

/-- What the rate gives is worth no more than what it asks. -/
def Rate.Fair (v : Pubkey → ℕ) (rate : Rate) : Prop :=
  v rate.tokenOut * rate.num ≤ v rate.tokenIn * rate.den

instance (v : Pubkey → ℕ) (rate : Rate) : Decidable (rate.Fair v) :=
  inferInstanceAs (Decidable (_ ≤ _))

/-- The exchange gives at most what the rate makes of `net`. -/
structure Rate.Bounds (rate : Rate) (net out : ℕ) : Prop where
  den_pos : 0 < rate.den
  le : out * rate.den ≤ net * rate.num

/-- At a fair rate what an exchange gives is worth no more than what it takes. -/
theorem Rate.Bounds.worth_le {rate : Rate} {net out : ℕ} (h : rate.Bounds net out)
    {v : Pubkey → ℕ} (hfair : rate.Fair v) : out * v rate.tokenOut ≤ net * v rate.tokenIn := by
  apply Nat.le_of_mul_le_mul_right _ h.den_pos
  calc out * v rate.tokenOut * rate.den
      = out * rate.den * v rate.tokenOut := Nat.mul_right_comm _ _ _
    _ ≤ net * rate.num * v rate.tokenOut := Nat.mul_le_mul_right _ h.le
    _ = net * (v rate.tokenOut * rate.num) := by rw [Nat.mul_assoc, Nat.mul_comm rate.num]
    _ ≤ net * (v rate.tokenIn * rate.den) := Nat.mul_le_mul_left _ hfair
    _ = net * v rate.tokenIn * rate.den := (Nat.mul_assoc _ _ _).symm

section Rates

variable {env : Env} {w w' : World}

theorem takeRate_eq {ctx : TakeOffer} {offer : Offer} {tokenIn tokenOut : MintAccount}
    {price : UInt64} (hoffer : w.loadOffer ctx.offerPda = .ok offer)
    (hin : w.ledger.loadMint ctx.tokenInMint = .ok tokenIn)
    (hout : w.ledger.loadMint ctx.tokenOutMint = .ok tokenOut)
    (hprice : currentPrice env offer = .ok price) :
    takeRate env ctx w = .ok ⟨ctx.tokenInMint, ctx.tokenOutMint,
      10 ^ (tokenOut.decimals.toNat + priceDecimals),
      price.toNat * 10 ^ tokenIn.decimals.toNat⟩ := by
  simp only [takeRate, hoffer, hin, hout, hprice, ok_bind]
  rfl

theorem takeQuote_bounds {ctx : TakeOffer} {amount : UInt64} {r : OfferProcessResult}
    (h : takeQuote env ctx amount w = .ok r) :
    ∃ rate, takeRate env ctx w = .ok rate ∧ rate.tokenIn = ctx.tokenInMint ∧
      rate.tokenOut = ctx.tokenOutMint ∧
        rate.Bounds r.tokenInNetAmount.toNat r.tokenOutAmount.toNat := by
  simp only [takeQuote, bind_eq_ok] at h
  obtain ⟨offer, hoffer, tokenIn, hin, tokenOut, hout, hpriced⟩ := h
  simp only [processOfferCore, bind_eq_ok, pure_eq_ok] at hpriced
  obtain ⟨_, _, _, _, price, hprice, fees, _, out, hconvert, rfl⟩ := hpriced
  obtain ⟨hpos, _, _, _, hquotient⟩ := calculateTokenOutAmount_eq_ok.mp hconvert
  refine ⟨_, takeRate_eq hoffer hin hout hprice, rfl, rfl,
    Nat.mul_pos hpos (Nat.pow_pos (Nat.succ_pos 9)), ?_⟩
  rw [hquotient]
  exact Nat.div_mul_le_self _ _

theorem fulfilled_bounds {ctx : FulfillRedemptionRequest} {s : State} {offer : Offer}
    {o : RedemptionOffer} {r : RedemptionRequest} {tokenIn tokenOut : MintAccount}
    {result : RedemptionProcessResult} {l₁ l₂ l₃ : Ledger}
    (h : RequestFulfilled env ctx w w' s offer o r tokenIn tokenOut result l₁ l₂ l₃) :
    ∃ rate, redemptionRate env ctx w = .ok rate ∧ rate.tokenIn = ctx.tokenInMint ∧
      rate.tokenOut = ctx.tokenOutMint ∧
        rate.Bounds result.tokenInNetAmount.toNat result.tokenOutAmount.toNat := by
  have hpriced := h.priced
  simp only [processRedemptionCore, bind_eq_ok, pure_eq_ok] at hpriced
  obtain ⟨price, hprice, fees, _, out, hconvert, rfl⟩ := hpriced
  have hoffer := World.loadOffer_eq_ok.mpr h.underlying_stored
  have hin := Ledger.loadMint_eq_ok.mpr ⟨h.tokenIn, h.tokenIn_key⟩
  have hout := Ledger.loadMint_eq_ok.mpr ⟨h.tokenOut, h.tokenOut_key⟩
  have hrate : redemptionRate env ctx w = .ok ⟨ctx.tokenInMint, ctx.tokenOutMint,
      price.toNat * 10 ^ tokenOut.decimals.toNat,
      10 ^ (tokenIn.decimals.toNat + priceDecimals)⟩ := by
    simp only [redemptionRate, hoffer, hin, hout, hprice, ok_bind]
    rfl
  refine ⟨_, hrate, rfl, rfl, Nat.pow_pos (Nat.succ_pos 9), ?_⟩
  rw [redemptionTokenOut_ok hconvert, ← Nat.mul_assoc]
  exact Nat.div_mul_le_self _ _

end Rates

/-! ## Wealth -/

section Wealth

variable (v : Pubkey → ℕ) (group : List Pubkey)

/-- What a unit in an account counts for the group. -/
def counts (a : Ata) : ℕ := if a.wallet ∈ group then v a.mint else 0

/-- What the open requests of the group's members have locked. -/
def lockedWorth (requests : Store RedemptionRequestPda RedemptionRequest) : ℕ :=
  total requests fun _ r =>
    if r.redeemer.key ∈ group then r.amount.toNat * v r.offer.tokenInMint else 0

def wealth (w : World) : ℕ :=
  w.ledger.worth (counts v group) + lockedWorth v group w.redemptionRequests

/-- No member of the group is the boss of the moment, and an exchange is at a fair rate. -/
def NoBargain (w : World) (a : Action) : Prop :=
  (∀ s ∈ w.state, s.boss.key ∉ group) ∧ ∀ rate ∈ exchangeRate a w, rate.Fair v

instance (w : World) (a : Action) : Decidable (NoBargain v group w a) :=
  inferInstanceAs (Decidable (_ ∧ _))

end Wealth

section Step

variable {v : Pubkey → ℕ} {group : List Pubkey} {env : Env} {i : Instruction} {w w' : World}
  {l l' : Ledger} {b : Books}

theorem counts_account (wallet mint : Pubkey) :
    counts v group (b.account wallet mint) = if wallet ∈ group then v mint else 0 := rfl

variable (v group) in
theorem worth_of_pays {source destination mint : Pubkey} {amount : UInt64}
    (h : Moves (pays b source destination mint amount) l l') :
    l'.worth (counts v group) + (if source ∈ group then amount.toNat * v mint else 0) =
      l.worth (counts v group) + if destination ∈ group then amount.toNat * v mint else 0 := by
  have hworth := worth_of_transfer h (counts v group)
  simp only [counts_account, mul_ite, mul_zero] at hworth
  exact hworth

theorem worth_of_exchange {boss payer vault user tokenIn tokenOut : Pubkey} {net fee out : ℕ}
    (h : Moves (exchange b boss payer vault user tokenIn tokenOut net fee out) l l')
    (hboss : boss ∉ group) (hvault : vault ∉ group) :
    l'.worth (counts v group) + (if payer ∈ group then (net + fee) * v tokenIn else 0) =
      l.worth (counts v group) + if user ∈ group then out * v tokenOut else 0 := by
  have hworth := worth_flow h.balances (counts v group)
  simp only [counts_account, mul_ite, mul_zero, hboss, hvault, if_false, add_zero,
    zero_add] at hworth
  exact hworth

/-- A take at a fair rate. -/
theorem TakeMoves.worth_le {ctx : TakeOffer} {amount : UInt64} (h : TakeMoves ctx amount env w w')
    (hgroup : ∀ p ∈ group, p ∉ programAuthorities) (hboss : ∀ s ∈ w.state, s.boss.key ∉ group)
    (hfair : ∀ rate ∈ (takeRate env ctx w).toOption, rate.Fair v) :
    w'.ledger.worth (counts v group) ≤ w.ledger.worth (counts v group) := by
  obtain ⟨result, s, hquote, hs, hmoves⟩ := h
  obtain ⟨rate, hrate, hin, hout, hbounds⟩ := takeQuote_bounds hquote
  have hvault : Seeds.offerVaultAuthority ∉ group := fun hmem => hgroup _ hmem (by decide)
  have hworth := worth_of_exchange (v := v) hmoves (hboss s hs) hvault
  have hle := hbounds.worth_le (hfair rate (by rw [hrate]; rfl))
  rw [hin, hout] at hle
  rw [Nat.add_mul] at hworth
  split at hworth <;> omega

/-- An instruction that leaves the requests makes nobody richer who gains no tokens by it. -/
theorem wealth_le_of_worth (h : execute env i w = .ok w') (hi : i.subject ≠ .redemptions)
    (hworth : w'.ledger.worth (counts v group) ≤ w.ledger.worth (counts v group)) :
    wealth v group w' ≤ wealth v group w := by
  rw [wealth, wealth, requests_kept h hi]
  exact Nat.add_le_add_right hworth _

/-! ## Requests -/

theorem lockedWorth_insert {requests : Store RedemptionRequestPda RedemptionRequest}
    {q : RedemptionRequestPda} {r : RedemptionRequest} (h : requests.lookup q = none) :
    lockedWorth v group (requests.insert q r) = lockedWorth v group requests +
      if r.redeemer.key ∈ group then r.amount.toNat * v r.offer.tokenInMint else 0 :=
  total_insert_new h _ r

variable (v group) in
theorem lockedWorth_erase {requests : Store RedemptionRequestPda RedemptionRequest}
    {q : RedemptionRequestPda} {r : RedemptionRequest} (h : requests.lookup q = some r) :
    lockedWorth v group (requests.erase q) +
        (if r.redeemer.key ∈ group then r.amount.toNat * v r.offer.tokenInMint else 0) =
      lockedWorth v group requests := by
  have herase := total_erase requests (fun _ r =>
    if r.redeemer.key ∈ group then r.amount.toNat * v r.offer.tokenInMint else 0) q
  rwa [weigh_of_some h] at herase

/-- What is locked stays its owner's. -/
theorem wealth_requestCreated {ctx : CreateRedemptionRequest} {amount : UInt64} {s : State}
    {o : RedemptionOffer} {l : Ledger} (hexact : w.ledger.Exact)
    (hvault : Seeds.redemptionOfferVaultAuthority ∉ group)
    (h : RequestCreated env ctx amount w w' s o l) : wealth v group w' = wealth v group w := by
  have hworth := worth_of_pays v group (requestCreated_moves hexact h)
  have hrequests : lockedWorth v group w'.redemptionRequests = lockedWorth v group
      w.redemptionRequests + if ctx.redeemer.key ∈ group then
        amount.toNat * v ctx.redemptionOffer.tokenInMint else 0 := by
    rw [h.result]
    exact lockedWorth_insert h.fresh
  rw [if_neg hvault] at hworth
  rw [wealth, wealth]
  omega

theorem wealth_requestCancelled {ctx : CancelRedemptionRequest} {s : State} {o : RedemptionOffer}
    {r : RedemptionRequest} {l₁ l₂ : Ledger} (hexact : w.ledger.Exact)
    (hvault : Seeds.redemptionOfferVaultAuthority ∉ group)
    (h : RequestCancelled env ctx w w' s o r l₁ l₂) : wealth v group w' = wealth v group w := by
  have hworth := worth_of_pays v group (requestCancelled_moves hexact h)
  have hrequests := lockedWorth_erase v group h.request_stored
  have hresult : w'.redemptionRequests = w.redemptionRequests.erase ctx.redemptionRequest := by
    rw [h.result]
  rw [h.request_offer] at hrequests
  rw [if_neg hvault] at hworth
  rw [wealth, wealth, hresult]
  omega

/-- A fulfillment at a fair rate is worth no more than what was locked. -/
theorem wealth_requestFulfilled {ctx : FulfillRedemptionRequest} {s : State} {offer : Offer}
    {o : RedemptionOffer} {r : RedemptionRequest} {tokenIn tokenOut : MintAccount}
    {result : RedemptionProcessResult} {l₁ l₂ l₃ : Ledger} (hexact : w.ledger.Exact)
    (hvault : Seeds.redemptionOfferVaultAuthority ∉ group)
    (hboss : ∀ s ∈ w.state, s.boss.key ∉ group)
    (hfair : ∀ rate ∈ (redemptionRate env ctx w).toOption, rate.Fair v)
    (h : RequestFulfilled env ctx w w' s offer o r tokenIn tokenOut result l₁ l₂ l₃) :
    wealth v group w' ≤ wealth v group w := by
  obtain ⟨rate, hrate, hin, hout, hbounds⟩ := fulfilled_bounds h
  have hworth := worth_of_exchange (v := v) (requestFulfilled_moves hexact h)
    (hboss s h.state_stored) hvault
  have hrequests := lockedWorth_erase v group h.request_stored
  have hresult : w'.redemptionRequests = w.redemptionRequests.erase ctx.redemptionRequest := by
    rw [h.outcome]
  have hle := hbounds.worth_le (hfair rate (by rw [hrate]; rfl))
  have hparts := processRedemptionCore_parts h.priced
  have htokenIn : ctx.redemptionOffer.tokenInMint = ctx.tokenInMint := by
    rw [h.seeds, h.tokenIn_offer]
  have htokenOut : ctx.redemptionOffer.tokenOutMint = ctx.tokenOutMint := by
    rw [h.seeds, h.tokenOut_offer]
  rw [hin, hout] at hle
  rw [h.request_offer, ← h.redeemer, ← hparts, Nat.add_mul, htokenIn] at hrequests
  rw [if_neg hvault, htokenOut] at hworth
  rw [wealth, wealth, hresult]
  by_cases hmem : ctx.redeemer ∈ group
  · rw [if_pos hmem] at hworth hrequests
    omega
  · rw [if_neg hmem] at hworth hrequests
    omega

/-! ## Every action -/

/-- No success enriches the group. -/
theorem wealth_step {a : Action} (hexact : w.ledger.Exact)
    (hgroup : ∀ p ∈ group, p ∉ programAuthorities) (h : NoBargain v group w a)
    (hs : step a w = .ok w') : wealth v group w' ≤ wealth v group w := by
  obtain ⟨env, i⟩ := a
  obtain ⟨hboss, hfair⟩ := h
  have hvault : Seeds.offerVaultAuthority ∉ group := fun hmem => hgroup _ hmem (by decide)
  have hredemption : Seeds.redemptionOfferVaultAuthority ∉ group :=
    fun hmem => hgroup _ hmem (by decide)
  have hstep : execute env i w = .ok w' := hs
  cases i with
  | offerVaultDeposit ctx amount =>
    have hworth := worth_of_pays v group (vaultDeposit_moves hexact hs)
    rw [if_neg hvault] at hworth
    exact wealth_le_of_worth hstep nofun (by omega)
  | redemptionVaultDeposit ctx amount =>
    have hworth := worth_of_pays v group (vaultDeposit_moves hexact hs)
    rw [if_neg hredemption] at hworth
    exact wealth_le_of_worth hstep nofun (by omega)
  | offerVaultWithdraw ctx amount | redemptionVaultWithdraw ctx amount =>
    obtain ⟨s, _, _, hstored, hb, _, _, _⟩ := vaultWithdraw_ok hs
    have hworth := worth_of_pays v group (vaultWithdraw_moves hexact hs)
    rw [← hb, if_neg (hboss s hstored)] at hworth
    exact wealth_le_of_worth hstep nofun (by omega)
  | mintTo ctx amount =>
    obtain ⟨s, _, _, _, hstored, hb, _, _, _, _, _, _⟩ := mintTo_ok hs
    have hworth := worth_of_issue (mintTo_moves hs) (counts v group)
    rw [counts_account, ← hb, if_neg (hboss s hstored), mul_zero, add_zero] at hworth
    exact wealth_le_of_worth hstep nofun hworth.le
  | takeOffer ctx amount approval =>
    exact wealth_le_of_worth hstep nofun ((takeOffer_moves hs).worth_le hgroup hboss hfair)
  | takeOfferPermissionless ctx amount approval =>
    exact wealth_le_of_worth hstep nofun
      ((takeOfferPermissionless_moves hs).worth_le hgroup hboss hfair)
  | createRedemptionRequest ctx amount =>
    obtain ⟨_, _, _, hc⟩ := createRedemptionRequest_ok hs
    exact (wealth_requestCreated hexact hredemption hc).le
  | cancelRedemptionRequest ctx =>
    obtain ⟨_, _, _, _, _, hc⟩ := cancelRedemptionRequest_ok hs
    exact (wealth_requestCancelled hexact hredemption hc).le
  | fulfillRedemptionRequest ctx =>
    obtain ⟨_, _, _, _, _, _, _, _, _, _, hf⟩ := fulfillRedemptionRequest_ok hs
    exact wealth_requestFulfilled hexact hredemption hboss hfair hf
  | makeRedemptionOffer ctx fee =>
    have hworth := worth_congr (amount_kept hstep rfl) (counts v group)
    obtain ⟨_, _, _, _, _, _, _, _, _, _, rfl⟩ := makeRedemptionOffer_ok hs
    exact Nat.add_le_add_right hworth.le _
  | updateRedemptionOfferFee ctx fee =>
    obtain ⟨_, _, _, _, _, _, rfl⟩ := updateRedemptionOfferFee_ok hs
    exact le_rfl
  | _ => exact wealth_le_of_worth hstep nofun (worth_congr (amount_kept hstep rfl) _).le

end Step

/-- Nobody profits at a fair price: from any state with exact transfers, no run whose exchanges
are all at fair rates leaves a group of wallets, none of them the boss's, richer. -/
theorem wealth_never_rises {v : Pubkey → ℕ} {group : List Pubkey} {w₀ : World}
    {actions : List Action} (hexact : w₀.ledger.Exact)
    (hgroup : ∀ p ∈ group, p ∉ programAuthorities)
    (h : Along step (NoBargain v group) w₀ actions) :
    wealth v group (run step w₀ actions) ≤ wealth v group w₀ := by
  have hinv : (run step w₀ actions).ledger.Exact ∧
      wealth v group (run step w₀ actions) ≤ wealth v group w₀ := by
    refine run_invariant (P := fun w : World =>
      w.ledger.Exact ∧ wealth v group w ≤ wealth v group w₀)
      (fun a w w' hw hc hs => ?_) ⟨hexact, le_rfl⟩ h
    exact ⟨hw.1.calls (execute_effect hs).calls, (wealth_step hw.1 hgroup hc hs).trans hw.2⟩
  exact hinv.2

/-- Alice and Bob, with a base unit of USDC worth a thousand of ONyc: two requests and a payment
at that price leave them no richer. -/
theorem wealth_never_rises_requests :
    let w₀ := run step (World.genesis (Sample.ledger Sample.issuer)) Sample.setup
    let v := fun mint => if mint = Sample.usdc then 1000 else if mint = Sample.onyc then 1 else 0
    wealth v [Sample.alice.key, Sample.bob.key]
      (run step w₀ [Sample.aliceRequests, Sample.bobRequests, Sample.fulfillAlice]) ≤
      3000000000 := by
  intro w₀ v
  have hexact : w₀.ledger.Exact :=
    (Sample.exact_ledger Sample.issuer).calls (calls_run (World.genesis _) Sample.setup)
  have hwealth : wealth v [Sample.alice.key, Sample.bob.key] w₀ = 3000000000 := by decide +kernel
  rw [← hwealth]
  exact wealth_never_rises hexact (by decide) (by decide +kernel)

end OnreApp.Program
