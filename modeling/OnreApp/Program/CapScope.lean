import OnreApp.Offers.StepPrice
import OnreApp.Offers.Takes
import OnreApp.Program.SupplyCap

/-!
# Whom the supply cap binds

The cap is documented as ONyc's. A take passes it on to whatever `token_out` is, and it is
compared with the supply of any mint under the program's authority.
-/
namespace OnreApp.Program

open Library.FiniteStore Library.Outcome Library.Run Offers Tokens Utils

theorem World.withMaxSupply_withMaxSupply (w : World) (cap cap' : UInt64) :
    (w.withMaxSupply cap).withMaxSupply cap' = w.withMaxSupply cap' := by
  unfold withMaxSupply
  rw [Option.map_map]
  rfl

theorem World.setLedger_withMaxSupply (w : World) (l : Ledger) (cap cap' : UInt64) :
    ((w.withMaxSupply cap).setLedger l).withMaxSupply cap' = (w.withMaxSupply cap').setLedger l :=
  congrArg (·.setLedger l) (w.withMaxSupply_withMaxSupply cap cap')

/-- Both fail, or both succeed and leave the same world up to the cap: in particular the same
calls into the token programs, and with them every amount, balance and supply. -/
def SameOutcome (x y : Except Error World) : Prop :=
  x.toOption.map (·.withMaxSupply 0) = y.toOption.map (·.withMaxSupply 0)

/-- What a take pays, in closed form. -/
def takenFor (env : Env) (offer : Offer) (amount : UInt64) (tokenIn tokenOut : Mint) : ℕ :=
  netAfterFee amount.toNat offer.feeBasisPoints.toNat *
    10 ^ (tokenOut.decimals.toNat + priceDecimals) /
      (exactPrice offer env.now * 10 ^ tokenIn.decimals.toNat)

theorem processOfferCore_takenFor {env : Env} {offer : Offer} {amount : UInt64}
    {tokenIn tokenOut : MintAccount} {result : OfferProcessResult}
    (h : processOfferCore env offer amount tokenIn tokenOut = .ok result) :
    result.tokenOutAmount.toNat = takenFor env offer amount tokenIn.toMint tokenOut.toMint := by
  simp only [processOfferCore, bind_eq_ok, pure_eq_ok] at h
  obtain ⟨_, _, _, _, price, hprice, fees, hfees, out, hout, rfl⟩ := h
  obtain ⟨_, _, _, _, hout⟩ := calculateTokenOutAmount_eq_ok.mp hout
  rw [takenFor, ← currentPrice_ok hprice, ← calculateFees_net hfees]
  exact hout

/-- The cap leaves room for what a take would mint, if it would mint at all. -/
def CapLeavesRoom (env : Env) (ctx : TakeOffer) (amount : UInt64) (w : World) (cap : UInt64) :
    Prop :=
  ∀ offer tokenIn tokenOut, w.offers.lookup ctx.offerPda = some offer →
    w.ledger.mints.lookup ctx.tokenInMint = some tokenIn →
    w.ledger.mints.lookup ctx.tokenOutMint = some tokenOut →
    tokenOut.mintAuthority = some Seeds.mintAuthority → 0 < cap →
      tokenOut.supply.toNat + takenFor env offer amount tokenIn tokenOut ≤ cap.toNat

/-- What a take needs apart from the cap: its checks pass, no mint withholds a fee, the user has
the amount and the program can pay. -/
def Takeable (env : Env) (ctx : TakeOffer) (amount : UInt64) (approval : Option ApprovalMessage)
    (w : World) : Prop :=
  ∃ offer s tokenIn tokenOut l result,
    TakeChecks env ctx amount approval w offer s tokenIn tokenOut l result ∧
      hasTransferFee env.epoch tokenIn = false ∧ hasTransferFee env.epoch tokenOut = false ∧
      amount.toNat ≤ w.ledger.amount (ctx.tokenInAccount ctx.user.key) ∧
      ctx.CanPayOut tokenOut result 0 w.ledger

/-- What the permissionless route asks for besides. -/
structure OpenToIntermediary (ctx : TakeOfferPermissionless) (w : World) : Prop where
  vaultAuthority : ctx.vaultAuthority = Seeds.offerVaultAuthority
  permissionlessAuthority : ctx.permissionlessAuthority = Seeds.permissionlessAuthority
  mintAuthority : ctx.mintAuthority = Seeds.mintAuthority
  allowed : ∃ offer, w.offers.lookup ctx.offerPda = some offer ∧ offer.allowPermissionless = true
  tokenInAccount : w.ledger.HasAccount (ctx.tokenInAccount Seeds.permissionlessAuthority)
  tokenOutAccount : w.ledger.HasAccount (ctx.tokenOutAccount Seeds.permissionlessAuthority)

/-! ## A take under a cap is a take without one, behind the comparison -/

section Takes

variable {env : Env} {amount : UInt64} {approval : Option ApprovalMessage} {w : World}
  {offer : Offer} {s : State} {tokenIn tokenOut : MintAccount} {l : Ledger}
  {result : OfferProcessResult} {ctx : TakeOffer} {cap : UInt64}

/-- The checks of a take do not read the cap. -/
theorem takeChecks_withMaxSupply (cap : UInt64)
    (h : TakeChecks env ctx amount approval w offer s tokenIn tokenOut l result) :
    TakeChecks env ctx amount approval (w.withMaxSupply cap) offer { s with maxSupply := cap }
      tokenIn tokenOut l result :=
  { h with state_stored := congrArg (Option.map _) h.state_stored }

theorem takeChecks_uncapped
    (h : TakeChecks env ctx amount approval (w.withMaxSupply cap) offer s tokenIn tokenOut l
      result) : s.maxSupply = cap ∧
    TakeChecks env ctx amount approval (w.withMaxSupply 0) offer { s with maxSupply := 0 }
      tokenIn tokenOut l result := by
  constructor
  · obtain ⟨s', _, rfl⟩ := Option.map_eq_some_iff.mp h.state_stored
    rfl
  · have h0 := takeChecks_withMaxSupply 0 h
    rwa [World.withMaxSupply_withMaxSupply] at h0

/-- Where a take has passed its checks, the comparison is that of its closed form. -/
theorem capLeavesRoom_iff
    (h : TakeChecks env ctx amount approval w offer s tokenIn tokenOut l result) :
    CapLeavesRoom env ctx amount w cap ↔
      (programControlsMint tokenOut Seeds.mintAuthority = true → 0 < cap →
        tokenOut.supply.toNat + result.tokenOutAmount.toNat ≤ cap.toNat) := by
  rw [processOfferCore_takenFor h.priced]
  constructor
  · intro hroom hcontrols
    exact hroom _ _ _ h.offer_stored h.tokenIn h.tokenOut (of_decide_eq_true hcontrols)
  · intro hle offer' tokenIn' tokenOut' ho hi hj hcontrols
    rw [h.offer_stored] at ho
    rw [h.tokenIn] at hi
    rw [h.tokenOut] at hj
    cases ho
    cases hi
    cases hj
    exact hle (decide_eq_true hcontrols)

theorem takeOffer_cap (cap : UInt64) (w₀ : World) :
    (∃ w', takeOffer env ctx amount approval (w.withMaxSupply cap) = .ok w' ∧
      w'.withMaxSupply 0 = w₀) ↔
    CapLeavesRoom env ctx amount w cap ∧
      takeOffer env ctx amount approval (w.withMaxSupply 0) = .ok w₀ := by
  simp only [takeOffer_eq_ok]
  constructor
  · intro h
    obtain ⟨_, ⟨offer, s, tokenIn, tokenOut, l, result, l', hc, hexec, rfl⟩, rfl⟩ := h
    obtain ⟨rfl, hc₀⟩ := takeChecks_uncapped hc
    obtain ⟨hcap, hexec₀⟩ := executeTokenOperations_capped_iff.mp hexec
    exact ⟨(capLeavesRoom_iff hc).mpr hcap, offer, _, tokenIn, tokenOut, l, result, l', hc₀,
      hexec₀, World.setLedger_withMaxSupply ..⟩
  · intro h
    obtain ⟨hroom, offer, s, tokenIn, tokenOut, l, result, l', hc, hexec, rfl⟩ := h
    have hcap := takeChecks_withMaxSupply cap hc
    rw [World.withMaxSupply_withMaxSupply] at hcap
    obtain ⟨h0, _⟩ := takeChecks_uncapped hc
    have hexec' := executeTokenOperations_capped_iff
      (p := ctx.execParams ctx.user.key { s with maxSupply := cap } tokenIn tokenOut result).mpr
        ⟨(capLeavesRoom_iff hcap).mp hroom, by rwa [TakeOffer.execParams, h0] at hexec⟩
    exact ⟨_, ⟨offer, _, tokenIn, tokenOut, l, result, l', hcap, hexec', rfl⟩,
      World.setLedger_withMaxSupply ..⟩

theorem takeOfferPermissionless_cap {ctx : TakeOfferPermissionless} (cap : UInt64) (w₀ : World) :
    (∃ w', takeOfferPermissionless env ctx amount approval (w.withMaxSupply cap) = .ok w' ∧
      w'.withMaxSupply 0 = w₀) ↔
    CapLeavesRoom env ctx.toTakeOffer amount w cap ∧
      takeOfferPermissionless env ctx amount approval (w.withMaxSupply 0) = .ok w₀ := by
  simp only [takeOfferPermissionless_eq_ok]
  constructor
  · intro h
    obtain ⟨_, ⟨offer, s, tokenIn, tokenOut, l, result, l₁, l₂, l₃, hc, hallow, hv, hp, hm, hin,
      hout, h₁, hexec, h₃, rfl⟩, rfl⟩ := h
    obtain ⟨rfl, hc₀⟩ := takeChecks_uncapped hc
    obtain ⟨hcap, hexec₀⟩ := executeTokenOperations_capped_iff.mp hexec
    exact ⟨(capLeavesRoom_iff hc).mpr hcap, offer, _, tokenIn, tokenOut, l, result, l₁, l₂, l₃,
      hc₀, hallow, hv, hp, hm, hin, hout, h₁, hexec₀, h₃, World.setLedger_withMaxSupply ..⟩
  · intro h
    obtain ⟨hroom, offer, s, tokenIn, tokenOut, l, result, l₁, l₂, l₃, hc, hallow, hv, hp, hm, hin,
      hout, h₁, hexec, h₃, rfl⟩ := h
    have hcap := takeChecks_withMaxSupply cap hc
    rw [World.withMaxSupply_withMaxSupply] at hcap
    obtain ⟨h0, _⟩ := takeChecks_uncapped hc
    have hexec' := (executeTokenOperations_capped_iff (p := ctx.execParams
      Seeds.permissionlessAuthority { s with maxSupply := cap } tokenIn tokenOut result)).mpr
        ⟨(capLeavesRoom_iff hcap).mp hroom, by rwa [TakeOffer.execParams, h0] at hexec⟩
    exact ⟨_, ⟨offer, _, tokenIn, tokenOut, l, result, l₁, l₂, l₃, hcap, hallow, hv, hp, hm, hin,
      hout, h₁, hexec', h₃, rfl⟩, World.setLedger_withMaxSupply ..⟩

/-! ## A take without a cap -/

theorem takeOffer_uncapped_iff :
    (∃ w', takeOffer env ctx amount approval (w.withMaxSupply 0) = .ok w') ↔
      Takeable env ctx amount approval w := by
  simp only [takeOffer_eq_ok]
  have huv : ctx.user.key ≠ Seeds.offerVaultAuthority := ctx.user.ne_authority (by decide)
  constructor
  · intro h
    obtain ⟨_, offer, s, tokenIn, tokenOut, l, result, l', hc, hexec, _⟩ := h
    have hself : Calls (TokenCpi.MovesWithin [] []) l l := .refl l
    obtain ⟨hfi, hfo, hle, hpay⟩ :=
      (hc.exchange_ok_iff hself hc.has_userIn hc.has_userOut huv).mp ⟨l', hexec⟩
    rw [hc.amount_eq] at hle
    rw [TakeOffer.canPayOut_congr (congrFun hc.supply_eq _) (hc.amount_eq _)] at hpay
    obtain ⟨s₀, hs₀, rfl⟩ := Option.map_eq_some_iff.mp hc.state_stored
    exact ⟨offer, s₀, tokenIn, tokenOut, l, result, { hc with state_stored := hs₀ }, hfi, hfo, hle,
      hpay⟩
  · intro h
    obtain ⟨offer, s, tokenIn, tokenOut, l, result, hc, hfi, hfo, hle, hpay⟩ := h
    have hself : Calls (TokenCpi.MovesWithin [] []) l l := .refl l
    have hc₀ := takeChecks_withMaxSupply 0 hc
    rw [← hc.amount_eq] at hle
    rw [← TakeOffer.canPayOut_congr (congrFun hc.supply_eq _) (hc.amount_eq _)] at hpay
    obtain ⟨l', hexec⟩ := (hc₀.exchange_ok_iff hself hc.has_userIn hc.has_userOut huv).mpr
      ⟨hfi, hfo, hle, hpay⟩
    exact ⟨_, offer, _, tokenIn, tokenOut, l, result, l', hc₀, hexec, rfl⟩

theorem takeOfferPermissionless_uncapped_iff {ctx : TakeOfferPermissionless} :
    (∃ w', takeOfferPermissionless env ctx amount approval (w.withMaxSupply 0) = .ok w') ↔
      Takeable env ctx.toTakeOffer amount approval w ∧ OpenToIntermediary ctx w := by
  obtain ⟨ctx, vaultAuthority, permissionlessAuthority, mintAuthority⟩ := ctx
  have hroutes := Take.permissionless_ok_iff
    (t := ⟨env, ctx, amount, approval, .permissionless⟩) (w := w.withMaxSupply 0)
  rw [takeOffer_uncapped_iff] at hroutes
  constructor
  · intro h
    obtain ⟨w', h⟩ := h
    obtain ⟨_, _, _, _, _, _, _, _, _, _, _, hv, hp, hm, _⟩ := takeOfferPermissionless_eq_ok.mp h
    obtain ⟨htake, offer, ho, hallow, hin, hout⟩ := hroutes.mp ⟨w', by
      rw [TakeOffer.permissionless, ← hv, ← hp, ← hm]
      exact h⟩
    exact ⟨htake, hv, hp, hm, ⟨offer, ho, hallow⟩, hin, hout⟩
  · intro h
    obtain ⟨htake, hopen⟩ := h
    obtain ⟨offer, ho, hallow⟩ := hopen.allowed
    obtain rfl := hopen.vaultAuthority
    obtain rfl := hopen.permissionlessAuthority
    obtain rfl := hopen.mintAuthority
    exact hroutes.mpr ⟨htake, offer, ho, hallow, hopen.tokenInAccount, hopen.tokenOutAccount⟩

end Takes

/-- A take has the same outcome under two caps exactly if something else stands in its way, or
both caps leave room for what it would mint, or neither does. -/
theorem take_ignores_cap_iff (env : Env) (amount : UInt64) (approval : Option ApprovalMessage)
    (w : World) (cap₁ cap₂ : UInt64) :
    (∀ ctx : TakeOffer,
      SameOutcome (takeOffer env ctx amount approval (w.withMaxSupply cap₁))
        (takeOffer env ctx amount approval (w.withMaxSupply cap₂)) ↔
      (Takeable env ctx amount approval w →
        (CapLeavesRoom env ctx amount w cap₁ ↔ CapLeavesRoom env ctx amount w cap₂))) ∧
    ∀ ctx : TakeOfferPermissionless,
      SameOutcome (takeOfferPermissionless env ctx amount approval (w.withMaxSupply cap₁))
        (takeOfferPermissionless env ctx amount approval (w.withMaxSupply cap₂)) ↔
      (Takeable env ctx.toTakeOffer amount approval w ∧ OpenToIntermediary ctx w →
        (CapLeavesRoom env ctx.toTakeOffer amount w cap₁ ↔
          CapLeavesRoom env ctx.toTakeOffer amount w cap₂)) := by
  constructor
  · intro ctx
    rw [← takeOffer_uncapped_iff]
    exact same_outcome_iff (takeOffer_cap cap₁) (takeOffer_cap cap₂)
  · intro ctx
    rw [← takeOfferPermissionless_uncapped_iff]
    exact same_outcome_iff (takeOfferPermissionless_cap cap₁) (takeOfferPermissionless_cap cap₂)

/-- The market of an ONyc that the program mints, after ONyc has moved to another mint. -/
def Sample.movedMint : List Action :=
  market false ++ [act (.setOnycMint { boss, onycMint := usdc })]

/-- Alice's take of the old mint goes through without a cap. A cap of one unit on the new ONyc
rejects it. -/
theorem cap_rejects_other_mint :
    ¬ ∀ (l : Ledger) (actions : List Action) (env : Env) (ctx : TakeOffer) (amount : UInt64)
      (approval : Option ApprovalMessage) (cap₁ cap₂ : UInt64) (offer : Offer) (s : State),
      (run step (World.genesis l) actions).offers.lookup ctx.offerPda = some offer →
      (run step (World.genesis l) actions).state = some s → offer.tokenOutMint ≠ s.onycMint →
      SameOutcome
        (takeOffer env ctx amount approval
          ((run step (World.genesis l) actions).withMaxSupply cap₁))
        (takeOffer env ctx amount approval
          ((run step (World.genesis l) actions).withMaxSupply cap₂)) := by
  intro h
  have hpairs : ((run step (World.genesis (Sample.ledger Seeds.mintAuthority))
      Sample.movedMint).offers.lookup Sample.aliceTakes.offerPda).map Offer.tokenOutMint =
        some Sample.onyc ∧
      (run step (World.genesis (Sample.ledger Seeds.mintAuthority))
        Sample.movedMint).state.map State.onycMint = some Sample.usdc := by decide +kernel
  obtain ⟨offer, ho, hout⟩ := Option.map_eq_some_iff.mp hpairs.1
  obtain ⟨s, hs, honyc⟩ := Option.map_eq_some_iff.mp hpairs.2
  have hsame := h _ _ (Sample.env 1000) Sample.aliceTakes.toTakeOffer 1000 none 0 1 offer s ho hs
    (by rw [hout, honyc]; decide)
  have hsucceeds := congrArg Option.isSome hsame
  revert hsucceeds
  rw [Option.isSome_map, Option.isSome_map]
  decide +kernel

end OnreApp.Program
