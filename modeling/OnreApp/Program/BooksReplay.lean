import OnreApp.Offers.TakeEffect
import OnreApp.Program.EventReplay
import OnreApp.Program.RouteEquivalence
import OnreApp.Redemption.Settlement
import OnreApp.Tokens.Books

/-!
# The log tells where every token is

With exact transfers the events are a bookkeeper's vouchers: from the state account and the
books of one moment they give every balance, every supply and every mint's authority of any
later moment.
-/
namespace OnreApp.Program

open Library.Balance Library.FiniteStore Library.Log Library.Outcome Library.Run Offers Redemption
  Tokens Utils

/-! ## What an event books -/

/-- The program is the authority of the mint. -/
def controls (b : Books) (mint : Pubkey) : Prop := b.mintAuthority mint = some Seeds.mintAuthority

instance (b : Books) (mint : Pubkey) : Decidable (controls b mint) :=
  inferInstanceAs (Decidable (b.mintAuthority mint = some Seeds.mintAuthority))

/-- An exchange: `payer` gives `net + fee`, of which the program burns the net part or passes
all on to the boss; `user` gets `out`, minted or paid by `vault`. -/
def exchange (b : Books) (boss payer vault user tokenIn tokenOut : Pubkey) (net fee out : ℕ) :
    Movement where
  lost := Pi.single (b.account payer tokenIn) (net + fee) +
    Pi.single (b.account vault tokenOut) (if controls b tokenOut then 0 else out)
  gained := Pi.single (b.account boss tokenIn) (if controls b tokenIn then fee else net + fee) +
    Pi.single (b.account user tokenOut) out
  burned := Pi.single tokenIn (if controls b tokenIn then net else 0)
  minted := Pi.single tokenOut (if controls b tokenOut then out else 0)

/-- A transfer between two wallets' accounts for a mint. -/
def pays (b : Books) (source destination mint : Pubkey) (amount : UInt64) : Movement :=
  .transfer (b.account source mint) (b.account destination mint) amount.toNat

/-- What an event books, given who the boss is. -/
def movement (boss : Pubkey) (b : Books) : Event → Movement
  | .offerVaultDeposit mint amount signer => pays b signer Seeds.offerVaultAuthority mint amount
  | .offerVaultWithdraw mint amount signer => pays b Seeds.offerVaultAuthority signer mint amount
  | .redemptionVaultDeposit mint amount signer =>
    pays b signer Seeds.redemptionOfferVaultAuthority mint amount
  | .redemptionVaultWithdraw mint amount signer =>
    pays b Seeds.redemptionOfferVaultAuthority signer mint amount
  | .onycTokensMinted mint signer amount => .issue (b.account signer mint) amount.toNat
  | .offerTaken k net out fee user | .offerTakenPermissionless k net out fee user =>
    exchange b boss user Seeds.offerVaultAuthority user k.tokenInMint k.tokenOutMint net.toNat
      fee.toNat out.toNat
  | .redemptionRequest (.created _ k redeemer amount _) =>
    pays b redeemer Seeds.redemptionOfferVaultAuthority k.tokenInMint amount
  | .redemptionRequest (.cancelled _ k redeemer amount _) =>
    pays b Seeds.redemptionOfferVaultAuthority redeemer k.tokenInMint amount
  | .redemptionRequest (.fulfilled _ k redeemer net fee out _) =>
    exchange b boss Seeds.redemptionOfferVaultAuthority Seeds.redemptionOfferVaultAuthority redeemer
      k.tokenInMint k.tokenOutMint net.toNat fee.toNat out.toNat
  | _ => .none

def applyBooks (boss : Pubkey) : Event → Books → Books
  | .mintAuthorityTransferredToBoss mint _ new, b => b.handOver mint new
  | .mintAuthorityTransferredToProgram mint _ new, b => b.handOver mint new
  | e, b => b.post (movement boss b e)

/-- The state account and the books together: an exchange pays the boss of its moment. -/
structure Accounts where
  state : Option State
  books : Books

def accountsOf (w : World) : Accounts := ⟨w.state, booksOf w.ledger⟩

/-- The boss named by a state account, if there is one. -/
def bossOf (state : Option State) : Pubkey := state.elim Pubkey.default (·.boss.key)

def applyAccounts (e : Event) (a : Accounts) : Accounts :=
  ⟨applyState e a.state, applyBooks (bossOf a.state) e a.books⟩

theorem applyBooks_ignored {boss : Pubkey} {e : Event}
    (h : e.subject = .state ∨ e.subject = .offers) (b : Books) : applyBooks boss e b = b := by
  cases e
  all_goals first | rfl | (rcases h with h | h <;> cases h)

/-! ## Vault operations -/

section Steps

variable {env : Env} {i : Instruction} {w w' : World} {boss : Pubkey}

/-- One transfer between accounts that exist or are opened for it. -/
theorem moves_of_transfer {l l₁ l₂ : Ledger} {source destination : Ata} {authority : Pubkey}
    {amount : UInt64} (hexact : l.Exact) (hopen : Calls (fun _ => False) l l₁)
    (hsupply : l₁.supply = l.supply)
    (h : transferTokens env.epoch source destination authority amount l₁ = .ok l₂) :
    Moves (pays (booksOf l) source.wallet destination.wallet source.mint amount) l l₂ := by
  have hfree : l₁.FreeOfFee env.epoch source.mint := fun n => hexact.calls hopen _ _ n
  have hcalls : Calls (fun c => ∀ k, ¬ c.setsAuthority k) l₁ l₂ :=
    transferTokens_calls h fun _ hset => hset
  obtain ⟨hcan, _⟩ := transferTokens_eq_ok.mp h
  have hdestination : (booksOf l).account destination.wallet source.mint = destination := by
    rw [hcan.2.2.1]
    exact account_eq_of_calls hopen hcan.2.1
  rw [pays, account_eq_of_calls hopen hcan.1, hdestination]
  apply (Moves.of_opening hopen hsupply).after_opening
  apply Moves.of_calls hcalls (fun c k hc => hc k)
  · exact transferTokens_flow h hfree
  · rw [transferTokens_supply h]
    exact .refl _

theorem vaultDeposit_moves {authority : Pubkey} {ctx : VaultAccounts} {amount : UInt64}
    (hexact : w.ledger.Exact) (h : vaultDeposit authority env ctx amount w = .ok w') :
    Moves (pays (booksOf w.ledger) ctx.boss.key authority ctx.tokenMint amount) w.ledger
      w'.ledger := by
  obtain ⟨s, l, l', _, _, hinit, htransfer, rfl⟩ := vaultDeposit_ok h
  exact moves_of_transfer hexact (.of_initIfNeeded hinit) (Ledger.supply_initIfNeeded hinit)
    htransfer

theorem vaultWithdraw_moves {authority : Pubkey} {ctx : VaultAccounts} {amount : UInt64}
    (hexact : w.ledger.Exact) (h : vaultWithdraw authority env ctx amount w = .ok w') :
    Moves (pays (booksOf w.ledger) authority ctx.boss.key ctx.tokenMint amount) w.ledger
      w'.ledger := by
  obtain ⟨s, l, l', _, _, hinit, htransfer, rfl⟩ := vaultWithdraw_ok h
  exact moves_of_transfer hexact (.of_initIfNeeded hinit) (Ledger.supply_initIfNeeded hinit)
    htransfer

theorem mintTo_moves {ctx : MintTo} {amount : UInt64} (h : mintTo ctx amount w = .ok w') :
    Moves (.issue ((booksOf w.ledger).account ctx.boss.key ctx.onycMint) amount.toNat) w.ledger
      w'.ledger := by
  obtain ⟨s, mint, l, l', _, _, _, _, hk, hinit, hmint, rfl⟩ := mintTo_ok h
  have hopen : Calls (fun _ => False) w.ledger l := .of_initIfNeeded hinit
  have hcalls : Calls (fun c => ∀ k, ¬ c.setsAuthority k) l l' :=
    mintTokens_calls hmint fun _ hset => hset
  obtain ⟨_, hcan, _⟩ := mintTokens_eq_ok.mp hmint
  have haccount : (booksOf w.ledger).account ctx.boss.key ctx.onycMint = ctx.bossOnycAccount :=
    account_eq_of_calls hopen hcan.1
  have hsupply := mintTokens_supply hmint
  rw [hk] at hsupply
  rw [haccount]
  apply (Moves.of_opening hopen (Ledger.supply_initIfNeeded hinit)).after_opening
  exact .of_calls hcalls (fun c k hc => hc k) (mintTokens_flow hmint) hsupply

/-! ## Takes -/

/-- The parties of a take, found in the books. -/
theorem takeChecks_exchange {ctx : TakeOffer} {amount : UInt64} {approval : Option ApprovalMessage}
    {offer : Offer} {s : State} {tokenIn tokenOut : MintAccount} {l : Ledger}
    {result : OfferProcessResult}
    (hc : TakeChecks env ctx amount approval w offer s tokenIn tokenOut l result) :
    exchange (booksOf w.ledger) s.boss.key ctx.user.key Seeds.offerVaultAuthority ctx.user.key
      ctx.tokenInMint ctx.tokenOutMint result.tokenInNetAmount.toNat
      result.tokenInFeeAmount.toNat result.tokenOutAmount.toNat =
    ⟨ctx.lost amount result w.ledger, ctx.gained amount result w.ledger,
      Pi.single ctx.tokenInMint (ctx.burned result w.ledger),
      Pi.single ctx.tokenOutMint (ctx.minted result w.ledger)⟩ := by
  have hopen : Calls (fun _ => False) w.ledger l := hc.calls
  have huserIn : (booksOf w.ledger).account ctx.user.key ctx.tokenInMint =
      ctx.tokenInAccount ctx.user.key := account_eq_of_calls hopen hc.has_userIn
  have huserOut : (booksOf w.ledger).account ctx.user.key ctx.tokenOutMint =
      ctx.tokenOutAccount ctx.user.key := account_eq_of_calls hopen hc.has_userOut
  have hbossIn : (booksOf w.ledger).account s.boss.key ctx.tokenInMint =
      ctx.tokenInAccount ctx.boss := by
    rw [hc.boss]
    exact account_eq_of_calls hopen hc.has_bossIn
  have hvaultOut : (booksOf w.ledger).account Seeds.offerVaultAuthority ctx.tokenOutMint =
      ctx.tokenOutAccount Seeds.offerVaultAuthority := account_eq_of_calls hopen hc.has_vaultOut
  rw [exchange, huserIn, huserOut, hbossIn, hvaultOut, processOfferCore_total hc.priced]
  rfl

/-- What a take of either route does to the books. -/
def TakeMoves (ctx : TakeOffer) (amount : UInt64) (env : Env) (w w' : World) : Prop :=
  ∃ result s, takeQuote env ctx amount w = .ok result ∧ w.state = some s ∧
    Moves (exchange (booksOf w.ledger) s.boss.key ctx.user.key Seeds.offerVaultAuthority
      ctx.user.key ctx.tokenInMint ctx.tokenOutMint result.tokenInNetAmount.toNat
      result.tokenInFeeAmount.toNat result.tokenOutAmount.toNat) w.ledger w'.ledger

theorem takeOffer_moves {ctx : TakeOffer} {amount : UInt64} {approval : Option ApprovalMessage}
    (h : takeOffer env ctx amount approval w = .ok w') : TakeMoves ctx amount env w w' := by
  obtain ⟨_, l', _, htaken, hw⟩ := takeOffer_ledger h
  obtain ⟨offer, s, tokenIn, tokenOut, l, result, _, hc, hexec, rfl⟩ := takeOffer_eq_ok.mp h
  have hflow := hc.takeFlow hexec
  obtain rfl : _ = l' := congrArg World.ledger hw
  refine ⟨result, s, hc.quote, hc.state_stored, ?_⟩
  rw [takeChecks_exchange hc]
  exact .of_calls htaken.calls (fun c k hcall => hcall.not_setsAuthority k) hflow.balances
    hflow.supply

/-- The permissionless route is booked as the direct one: nothing stays on the way. -/
theorem takeOfferPermissionless_moves {ctx : TakeOfferPermissionless} {amount : UInt64}
    {approval : Option ApprovalMessage}
    (h : takeOfferPermissionless env ctx amount approval w = .ok w') :
    TakeMoves ctx.toTakeOffer amount env w w' := by
  obtain ⟨_, l₃, _, htaken, hw⟩ := takeOfferPermissionless_ledger h
  obtain ⟨offer, s, tokenIn, tokenOut, l, result, _, _, _, hc, hallow, hv, hp, hm, hin, hout, _⟩ :=
    takeOfferPermissionless_eq_ok.mp h
  obtain ⟨ctx, vaultAuthority, permissionlessAuthority, mintAuthority⟩ := ctx
  cases hv
  cases hp
  cases hm
  have hroute : takeOfferPermissionless env ctx.permissionless amount approval w = .ok w' := h
  obtain ⟨w₁, hdirect⟩ := direct_of_permissionless hroute
  obtain ⟨w₂, h₂, hagree⟩ := permissionless_of_direct hc.offer_stored hallow hin hout hdirect
  obtain rfl := Except.ok.inj (hroute.symm.trans h₂)
  obtain ⟨_, _, _, _, _, _, _, hc₁, hexec₁, rfl⟩ := takeOffer_eq_ok.mp hdirect
  have hflow := hc₁.takeFlow hexec₁
  refine ⟨_, _, hc₁.quote, hc₁.state_stored, ?_⟩
  rw [takeChecks_exchange hc₁]
  have hbalances : w'.ledger.amount = _ := funext hagree.balances
  have hsupply : w'.ledger.supply = _ := funext hagree.supply
  obtain rfl : _ = l₃ := congrArg World.ledger hw
  refine .of_calls htaken.calls (fun c k hcall => hcall.not_setsAuthority k) ?_ ?_
  · rw [hbalances]
    exact hflow.balances
  · rw [hsupply]
    exact hflow.supply

/-! ## Redemption requests -/

theorem requestCreated_moves {ctx : CreateRedemptionRequest} {amount : UInt64} {s : State}
    {o : RedemptionOffer} {l : Ledger} (hexact : w.ledger.Exact)
    (h : RequestCreated env ctx amount w w' s o l) :
    Moves (pays (booksOf w.ledger) ctx.redeemer.key Seeds.redemptionOfferVaultAuthority
      ctx.redemptionOffer.tokenInMint amount) w.ledger w'.ledger := by
  have hmint : ctx.redemptionOffer.tokenInMint = ctx.tokenInMint := by rw [h.seeds, h.tokenIn]
  have hledger : w'.ledger = l := congrArg World.ledger h.result
  rw [hledger, hmint]
  exact moves_of_transfer hexact (.refl _) rfl h.locked

theorem requestCancelled_moves {ctx : CancelRedemptionRequest} {s : State} {o : RedemptionOffer}
    {r : RedemptionRequest} {l₁ l₂ : Ledger} (hexact : w.ledger.Exact)
    (h : RequestCancelled env ctx w w' s o r l₁ l₂) :
    Moves (pays (booksOf w.ledger) Seeds.redemptionOfferVaultAuthority r.redeemer.key
      ctx.redemptionOffer.tokenInMint r.amount) w.ledger w'.ledger := by
  have hmint : ctx.redemptionOffer.tokenInMint = ctx.tokenInMint := by rw [h.seeds, h.tokenIn]
  have hledger : w'.ledger = l₂ := congrArg World.ledger h.result
  rw [hledger, hmint, ← h.redeemer]
  exact moves_of_transfer hexact (.of_initIfNeeded h.redeemerAccount)
    (Ledger.supply_initIfNeeded h.redeemerAccount) h.returned

theorem requestFulfilled_moves {ctx : FulfillRedemptionRequest} {s : State} {offer : Offer}
    {o : RedemptionOffer} {r : RedemptionRequest} {tokenIn tokenOut : MintAccount}
    {result : RedemptionProcessResult} {l₁ l₂ l₃ : Ledger} (hexact : w.ledger.Exact)
    (h : RequestFulfilled env ctx w w' s offer o r tokenIn tokenOut result l₁ l₂ l₃) :
    Moves (exchange (booksOf w.ledger) s.boss.key Seeds.redemptionOfferVaultAuthority
      Seeds.redemptionOfferVaultAuthority ctx.redeemer ctx.redemptionOffer.tokenInMint
      ctx.redemptionOffer.tokenOutMint result.tokenInNetAmount.toNat
      result.tokenInFeeAmount.toNat result.tokenOutAmount.toNat) w.ledger w'.ledger := by
  obtain ⟨hbalances, hsupply⟩ := h.flow hexact
  have hin : ctx.redemptionOffer.tokenInMint = ctx.tokenInMint := by rw [h.seeds, h.tokenIn_offer]
  have hout : ctx.redemptionOffer.tokenOutMint = ctx.tokenOutMint := by
    rw [h.seeds, h.tokenOut_offer]
  have hopen : Calls (fun _ => False) w.ledger l₂ :=
    (Calls.of_initIfNeeded h.userAccount).trans (.of_initIfNeeded h.bossAccount)
  have hvaultIn : (booksOf w.ledger).account Seeds.redemptionOfferVaultAuthority ctx.tokenInMint =
      ctx.vaultTokenIn := account_eq h.vaultIn
  have hvaultOut : (booksOf w.ledger).account Seeds.redemptionOfferVaultAuthority
      ctx.tokenOutMint = ctx.vaultTokenOut := account_eq h.vaultOut
  have huserOpened := (Ledger.hasAccount_initIfNeeded h.userAccount ctx.userTokenOut).mpr (.inl rfl)
  have huserCalls : Calls (fun _ => False) w.ledger l₁ := .of_initIfNeeded h.userAccount
  have huser : (booksOf w.ledger).account ctx.redeemer ctx.tokenOutMint = ctx.userTokenOut :=
    account_eq_of_calls huserCalls huserOpened
  have hbossOpened := (Ledger.hasAccount_initIfNeeded h.bossAccount ctx.bossTokenIn).mpr (.inl rfl)
  have hboss : (booksOf w.ledger).account s.boss.key ctx.tokenInMint = ctx.bossTokenIn := by
    rw [h.boss]
    exact account_eq_of_calls hopen hbossOpened
  have hledger : w'.ledger = l₃ := congrArg World.ledger h.outcome
  rw [hledger, hin, hout, exchange, hvaultIn, hvaultOut, huser, hboss, h.parts]
  exact .of_calls h.calls (fun c k hc => hc.not_setsAuthority k) hbalances hsupply

/-! ## Every instruction -/

/-- Whatever only opens accounts is not booked. -/
theorem moves_none (h : execute env i w = .ok w')
    (hi : i.subject = .state ∨ i.subject = .offers) : Moves .none w.ledger w'.ledger := by
  cases i with
  | initializeState =>
    obtain ⟨_, _, rfl⟩ := initializeState_ok h
    exact .refl _
  | proposeBoss | addAdmin | removeAdmin | clearAdmins | setRedemptionAdmin | addApprover
  | removeApprover | configureMaxSupply | setOnycMint =>
    obtain ⟨_, _, _, _, _, rfl⟩ := bossUpdate_eq_ok.mp h
    exact .refl _
  | acceptBoss =>
    obtain ⟨_, _, _, _, rfl⟩ := acceptBoss_eq_ok.mp h
    exact .refl _
  | setKillSwitch =>
    obtain ⟨_, _, _, rfl⟩ := setKillSwitch_eq_ok.mp h
    exact .refl _
  | closeState =>
    obtain ⟨_, _, _, rfl⟩ := closeState_eq_ok.mp h
    exact .refl _
  | makeOffer =>
    obtain ⟨_, l, _, _, _, hinit, rfl⟩ := makeOffer_ok h
    exact .of_opening (.of_initIfNeeded hinit) (Ledger.supply_initIfNeeded hinit)
  | addOfferVector =>
    obtain ⟨_, _, _, _, rfl⟩ := addOfferVector_ok h
    exact .refl _
  | deleteOfferVector =>
    obtain ⟨_, _, _, _, rfl⟩ := deleteOfferVector_ok h
    exact .refl _
  | deleteAllOfferVectors =>
    obtain ⟨_, _, _, _, rfl⟩ := deleteAllOfferVectors_ok h env.now
    exact .refl _
  | updateOfferFee =>
    obtain ⟨_, _, rfl⟩ := updateOfferFee_ok h
    exact .refl _
  | _ => rcases hi with hi | hi <;> cases hi

/-- The instructions that move tokens. -/
def Instruction.movesTokens : Instruction → Bool
  | .offerVaultDeposit _ _ | .offerVaultWithdraw _ _ | .redemptionVaultDeposit _ _
  | .redemptionVaultWithdraw _ _ | .mintTo _ _ | .takeOffer _ _ _ | .takeOfferPermissionless _ _ _
  | .createRedemptionRequest _ _ | .cancelRedemptionRequest _ | .fulfillRedemptionRequest _ => true
  | _ => false

theorem amount_kept (h : execute env i w = .ok w') (hi : i.movesTokens = false) :
    w'.ledger.amount = w.ledger.amount := by
  have hopened : ∀ {l l' : Ledger}, Calls (fun _ => False) l l' → l'.amount = l.amount :=
    fun hcalls => funext fun a => hcalls.amount_eq fun _ hc => hc.elim
  by_cases hsubject : i.subject = .state ∨ i.subject = .offers
  · exact (moves_none h hsubject).balances
  · cases i with
    | initializePermissionlessAuthority =>
      obtain ⟨_, _, _, _, rfl⟩ := initializePermissionlessAuthority_ok h
      rfl
    | transferMintAuthorityToProgram =>
      obtain ⟨_, _, _, _, rfl⟩ := transferMintAuthorityToProgram_ok h
      rfl
    | transferMintAuthorityToBoss =>
      obtain ⟨_, _, _, _, _, rfl⟩ := transferMintAuthorityToBoss_ok h
      rfl
    | getNav | getApy | getNavAdjustment | getTvl | getCirculatingSupply => rw [view_eq h]
    | makeRedemptionOffer =>
      obtain ⟨_, _, _, _, _, _, _, _, h₁, h₂, rfl⟩ := makeRedemptionOffer_ok h
      exact hopened ((Calls.of_initIfNeeded h₁).trans (.of_initIfNeeded h₂))
    | updateRedemptionOfferFee =>
      obtain ⟨_, _, _, _, _, _, rfl⟩ := updateRedemptionOfferFee_ok h
      rfl
    | _ => first | exact absurd (.inl rfl) hsubject | exact absurd (.inr rfl) hsubject | cases hi

/-- How an instruction's events and its calls into the token programs go together. -/
inductive Booked (env : Env) (i : Instruction) (w w' : World) : Prop
  /-- The events are about no token, and none moves. -/
  | quiet (events : ∀ e ∈ emit ⟨env, i⟩ w, e.subject = .state ∨ e.subject = .offers)
    (moves : Moves .none w.ledger w'.ledger)
  /-- The one event books what moves. -/
  | single {e : Event} (event : emit ⟨env, i⟩ w = [e])
    (posts : ∀ boss b, applyBooks boss e b = b.post (movement boss b e))
    (moves : Moves (movement (bossOf w.state) (booksOf w.ledger) e) w.ledger w'.ledger)
  | handOver {e : Event} {mint new : Pubkey} {m : Mint} (event : emit ⟨env, i⟩ w = [e])
    (hands : ∀ boss b, applyBooks boss e b = b.handOver mint new ∧ movement boss b e = .none)
    (stored : w.ledger.mints.lookup mint = some m)
    (ledger : w'.ledger = w.ledger.setAuthority mint new)

theorem TakeMoves.booked {ctx : TakeOffer} {amount : UInt64} (h : TakeMoves ctx amount env w w')
    {event : OfferProcessResult → Event}
    (hevents : events env i w = (do let result ← takeQuote env ctx amount w; pure [event result]))
    (hposts : ∀ r boss b, applyBooks boss (event r) b = b.post (movement boss b (event r)))
    (hmovement : ∀ boss b r, movement boss b (event r) =
      exchange b boss ctx.user.key Seeds.offerVaultAuthority ctx.user.key ctx.tokenInMint
        ctx.tokenOutMint r.tokenInNetAmount.toNat r.tokenInFeeAmount.toNat
        r.tokenOutAmount.toNat) : Booked env i w w' := by
  obtain ⟨result, s, hresult, hs, hmoves⟩ := h
  apply Booked.single (e := event result) (emit_of_ok (by rw [hevents, hresult]; rfl))
    (hposts result)
  rw [hmovement, hs]
  exact hmoves

theorem requestFulfilled_booked {ctx : FulfillRedemptionRequest} {s : State} {offer : Offer}
    {o : RedemptionOffer} {r : RedemptionRequest} {tokenIn tokenOut : MintAccount}
    {result : RedemptionProcessResult} {l₁ l₂ l₃ : Ledger} (hexact : w.ledger.Exact)
    (h : RequestFulfilled env ctx w w' s offer o r tokenIn tokenOut result l₁ l₂ l₃) :
    Booked env (.fulfillRedemptionRequest ctx) w w' := by
  apply Booked.single (emit_fulfillRequest h) fun _ _ => rfl
  rw [h.state_stored]
  exact requestFulfilled_moves hexact h

/-- With exact transfers every instruction's events say what its calls move. -/
theorem execute_booked (hexact : w.ledger.Exact) (h : execute env i w = .ok w') :
    Booked env i w w' := by
  by_cases hsubject : i.subject = .state ∨ i.subject = .offers
  · apply Booked.quiet _ (moves_none h hsubject)
    intro e he
    rw [subject_of_mem_emit he]
    exact hsubject
  · cases i with
    | initializePermissionlessAuthority ctx name =>
      obtain ⟨_, _, _, _, rfl⟩ := initializePermissionlessAuthority_ok h
      exact .quiet (fun _ he => nomatch he) (.refl _)
    | offerVaultDeposit ctx amount | redemptionVaultDeposit ctx amount =>
      exact .single (emit_of_ok rfl) (fun _ _ => rfl) (vaultDeposit_moves hexact h)
    | offerVaultWithdraw ctx amount | redemptionVaultWithdraw ctx amount =>
      exact .single (emit_of_ok rfl) (fun _ _ => rfl) (vaultWithdraw_moves hexact h)
    | mintTo ctx amount => exact .single (emit_of_ok rfl) (fun _ _ => rfl) (mintTo_moves h)
    | takeOffer ctx amount approval =>
      exact (takeOffer_moves h).booked rfl (fun _ _ _ => rfl) fun _ _ _ => rfl
    | takeOfferPermissionless ctx amount approval =>
      exact (takeOfferPermissionless_moves h).booked rfl (fun _ _ _ => rfl) fun _ _ _ => rfl
    | transferMintAuthorityToProgram ctx =>
      obtain ⟨_, _, _, hcan, rfl⟩ := transferMintAuthorityToProgram_ok h
      obtain ⟨m, hm, _⟩ := Option.map_eq_some_iff.mp hcan
      exact .handOver (emit_of_ok rfl) (fun _ _ => ⟨rfl, rfl⟩) hm rfl
    | transferMintAuthorityToBoss ctx =>
      obtain ⟨_, _, _, _, hcan, rfl⟩ := transferMintAuthorityToBoss_ok h
      obtain ⟨m, hm, _⟩ := Option.map_eq_some_iff.mp hcan
      exact .handOver (emit_of_ok rfl) (fun _ _ => ⟨rfl, rfl⟩) hm rfl
    | getNav ctx | getApy ctx | getNavAdjustment ctx | getTvl ctx | getCirculatingSupply ctx =>
      rw [view_eq h]
      cases hes : events env _ w with
      | error =>
        refine .quiet (fun e he => ?_) (.refl _)
        obtain ⟨es, hok, _⟩ := mem_emit he
        cases hes.symm.trans hok
      | ok es =>
        have hes' := hes
        simp only [events, bind_eq_ok, pure_eq_ok] at hes
        obtain ⟨_, _, rfl⟩ := hes
        exact .single (emit_of_ok hes') (fun _ _ => rfl) (.refl _)
    | makeRedemptionOffer ctx fee =>
      obtain ⟨_, l₁, l₂, _, _, _, _, _, h₁, h₂, rfl⟩ := makeRedemptionOffer_ok h
      have hopen : Calls (fun _ => False) w.ledger l₂ :=
        (Calls.of_initIfNeeded h₁).trans (.of_initIfNeeded h₂)
      apply Booked.single (emit_of_ok rfl) fun _ _ => rfl
      apply Moves.of_opening hopen
      exact (Ledger.supply_initIfNeeded h₂).trans (Ledger.supply_initIfNeeded h₁)
    | updateRedemptionOfferFee ctx fee =>
      obtain ⟨_, o, _, _, ho, _, rfl⟩ := updateRedemptionOfferFee_ok h
      exact .single (emit_updateFee ho) (fun _ _ => rfl) (.refl _)
    | createRedemptionRequest ctx amount =>
      obtain ⟨_, _, _, hc⟩ := createRedemptionRequest_ok h
      apply Booked.single (emit_createRequest hc.offer_stored) fun _ _ => rfl
      exact requestCreated_moves hexact hc
    | cancelRedemptionRequest ctx =>
      obtain ⟨_, _, _, _, _, hc⟩ := cancelRedemptionRequest_ok h
      apply Booked.single (emit_cancelRequest hc.request_stored) fun _ _ => rfl
      exact requestCancelled_moves hexact hc
    | fulfillRedemptionRequest ctx =>
      obtain ⟨_, _, _, _, _, _, _, _, _, _, hf⟩ := fulfillRedemptionRequest_ok h
      exact requestFulfilled_booked hexact hf
    | _ => first | exact absurd (.inl rfl) hsubject | exact absurd (.inr rfl) hsubject

/-! ## Following the events -/

/-- Where the books stay, only the state follows the events. -/
theorem replay_accounts_ignored {es : List Event} {b : Books}
    (h : ∀ e ∈ es, ∀ boss, applyBooks boss e b = b) (o : Option State) :
    replay applyAccounts ⟨o, b⟩ es = ⟨replay applyState o es, b⟩ := by
  induction es generalizing o with
  | nil => rfl
  | cons e es ih =>
    rw [replay_cons, replay_cons, applyAccounts, h e List.mem_cons_self]
    exact ih (fun e' he' => h e' (List.mem_cons_of_mem e he')) _

/-- With exact transfers an instruction's events say what becomes of the books. -/
theorem replay_accounts_step (hexact : w.ledger.Exact) (h : execute env i w = .ok w')
    (hi : ∀ ctx, i = .initializeState ctx → w.state ≠ none) :
    replay applyAccounts (accountsOf w) (emit ⟨env, i⟩ w) = accountsOf w' := by
  have hstate := replay_state_step h hi
  have hsingle : ∀ {e : Event}, emit ⟨env, i⟩ w = [e] →
      booksOf w'.ledger = applyBooks (bossOf w.state) e (booksOf w.ledger) →
      replay applyAccounts (accountsOf w) (emit ⟨env, i⟩ w) = accountsOf w' := by
    intro e hemit hbooks
    rw [hemit] at hstate ⊢
    rw [accountsOf, accountsOf, hbooks]
    exact congrArg (Accounts.mk · _) hstate
  cases execute_booked hexact h with
  | quiet events moves =>
    rw [accountsOf, accountsOf, moves.books, Books.post_none,
      replay_accounts_ignored fun e he boss => applyBooks_ignored (events e he) _, hstate]
  | single event posts moves =>
    apply hsingle event
    rw [posts, moves.books]
  | handOver event hands stored ledger =>
    apply hsingle event
    rw [(hands _ _).1, ledger, booksOf_setAuthority stored]

end Steps

/-- With exact transfers the log determines the books: every balance, every supply and every
mint's authority, beside the state account. -/
theorem log_replays_books {w₀ : World} {actions : List Action} (hexact : w₀.ledger.Exact)
    (h : Along step Uninitializing w₀ actions) :
    replay applyAccounts (accountsOf w₀) (log step emit w₀ actions) =
      accountsOf (run step w₀ actions) := by
  apply replay_log applyAccounts accountsOf
    (C := fun w a => w.ledger.Exact ∧ Uninitializing w a)
  · intro a w w' hc hs
    exact replay_accounts_step hc.1 hs (notInitializing hc.2)
  · rw [along_iff]
    intro pre a post he
    exact ⟨hexact.calls (calls_run w₀ pre), along_iff.mp h pre a post he⟩

/-- Alice asks to redeem half an ONyc, Bob 0.6 USDC, and Alice is paid from what Bob has locked:
the log alone gives Alice's balance and the vault's. -/
theorem log_replays_books_fulfilled :
    let w₀ := exec step (World.genesis (Sample.ledger Sample.issuer))
      (Sample.act (.initializeState ⟨Sample.boss, some programDataAddress, Sample.onyc⟩))
    let actions := Sample.setup ++ [Sample.aliceRequests, Sample.bobRequests, Sample.fulfillAlice]
    let books := (replay applyAccounts (accountsOf w₀) (log step emit w₀ actions)).books
    books.balances (Sample.account Sample.alice.key Sample.usdc) = 1500000 ∧
      books.balances (Sample.account Seeds.redemptionOfferVaultAuthority Sample.usdc) = 100000 := by
  intro w₀ actions books
  have hexact : w₀.ledger.Exact := Sample.exact_ledger Sample.issuer
  have hbooks : books = (accountsOf (run step w₀ actions)).books :=
    congrArg Accounts.books (log_replays_books hexact (by decide +kernel))
  rw [hbooks]
  decide +kernel

end OnreApp.Program
