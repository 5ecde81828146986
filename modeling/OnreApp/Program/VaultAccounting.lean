import OnreApp.Program.BooksReplay
import OnreApp.Redemption.Solvency

/-!
# What the program's own accounts hold

Over any run with exact transfers the balance of each vault is accounted for by the events:
what was deposited and paid in, less what was withdrawn and paid out. The accounts that
payments only pass through keep what they had.
-/
namespace OnreApp.Program

open Library.Balance Library.FiniteStore Library.Log Library.Outcome Library.Run Offers Redemption
  Tokens Utils

/-! ## One booking -/

theorem movement_of_subject {boss : Pubkey} {b : Books} {e : Event}
    (h : e.subject = .state ∨ e.subject = .offers) : movement boss b e = .none := by
  cases e
  all_goals first | rfl | (rcases h with h | h <;> cases h)

/-- What the events of a success count, each taken as `f` has it. -/
def counted (f : World → Event → ℕ) (a : Action) (w : World) : ℕ := ((emit a w).map (f w)).sum

/-- The balance of a wallet's associated token account for a mint. -/
def holding (l : Ledger) (wallet mint : Pubkey) : ℕ := l.amount ((booksOf l).account wallet mint)

/-- What an event takes from a wallet's account for a mint. -/
def lostBy (wallet mint : Pubkey) (w : World) (e : Event) : ℕ :=
  (movement (bossOf w.state) (booksOf w.ledger) e).lost ((booksOf w.ledger).account wallet mint)

def gainedBy (wallet mint : Pubkey) (w : World) (e : Event) : ℕ :=
  (movement (bossOf w.state) (booksOf w.ledger) e).gained ((booksOf w.ledger).account wallet mint)

theorem holding_redemptionVault (l : Ledger) (mint : Pubkey) :
    holding l Seeds.redemptionOfferVaultAuthority mint = vaultBalance l mint := by
  cases hm : l.mints.lookup mint with
  | some m =>
    have hprogram : (booksOf l).program mint = m.tokenProgram := by
      show (l.mints.lookup mint).elim .token (·.tokenProgram) = _
      rw [hm]
      rfl
    rw [vaultBalance_of_mint hm, holding, Books.account, hprogram]
    rfl
  | none =>
    rw [vaultBalance_eq_zero hm, holding]
    apply Ledger.amount_of_not_hasAccount
    intro ha
    obtain ⟨m, hm', _⟩ := l.mint_exists _ _ (Ledger.lookup_of_hasAccount ha)
    cases hm.symm.trans hm'

section Step

variable {env : Env} {i : Instruction} {a : Action} {w w' : World} {e : Event}

theorem counted_single {f : World → Event → ℕ} (h : emit a w = [e]) : counted f a w = f w e := by
  rw [counted, h]
  exact List.sum_singleton

theorem counted_zero {f : World → Event → ℕ} (h : ∀ e ∈ emit a w, f w e = 0) :
    counted f a w = 0 := by
  apply List.sum_eq_zero
  intro n hn
  obtain ⟨e, he, rfl⟩ := List.mem_map.mp hn
  exact h e he

theorem counted_congr {f g : World → Event → ℕ} (h : ∀ e ∈ emit a w, f w e = g w e) :
    counted f a w = counted g a w := congrArg List.sum (List.map_congr_left h)

theorem holding_of_moves {m : Movement} {l l' : Ledger} (h : Moves m l l') (wallet mint : Pubkey) :
    holding l' wallet mint + m.lost ((booksOf l).account wallet mint) =
      holding l wallet mint + m.gained ((booksOf l).account wallet mint) := by
  rw [holding, Books.account, h.program]
  exact h.balances.apply _

/-- Every success moves a wallet's balance by what its events book, no more and no less. -/
theorem holding_step (hexact : w.ledger.Exact) (h : execute env i w = .ok w')
    (wallet mint : Pubkey) :
    holding w'.ledger wallet mint + counted (lostBy wallet mint) ⟨env, i⟩ w =
      holding w.ledger wallet mint + counted (gainedBy wallet mint) ⟨env, i⟩ w := by
  cases execute_booked hexact h with
  | quiet events moves =>
    have hlost : ∀ e ∈ emit ⟨env, i⟩ w, lostBy wallet mint w e = 0 := by
      intro e he
      rw [lostBy, movement_of_subject (events e he)]
      rfl
    have hgained : ∀ e ∈ emit ⟨env, i⟩ w, gainedBy wallet mint w e = 0 := by
      intro e he
      rw [gainedBy, movement_of_subject (events e he)]
      rfl
    rw [counted_zero hlost, counted_zero hgained]
    exact holding_of_moves moves wallet mint
  | single event posts moves =>
    rw [counted_single event, counted_single event]
    exact holding_of_moves moves wallet mint
  | @handOver e k new m event hands stored ledger =>
    have hprogram : (booksOf w'.ledger).program = (booksOf w.ledger).program := by
      rw [ledger, booksOf_setAuthority stored]
      rfl
    have hnone := (hands (bossOf w.state) (booksOf w.ledger)).2
    rw [counted_single event, counted_single event, lostBy, gainedBy, hnone, holding, Books.account,
      hprogram, ledger]
    rfl

/-! ## Who an event names -/

/-- The wallets an event names as signer, user or redeemer. -/
def Event.parties : Event → List Pubkey
  | .offerVaultDeposit _ _ boss | .offerVaultWithdraw _ _ boss | .redemptionVaultDeposit _ _ boss
  | .redemptionVaultWithdraw _ _ boss | .onycTokensMinted _ boss _ => [boss]
  | .offerTaken _ _ _ _ user | .offerTakenPermissionless _ _ _ _ user => [user]
  | .redemptionRequest (.created _ _ redeemer _ _)
  | .redemptionRequest (.cancelled _ _ redeemer _ _)
  | .redemptionRequest (.fulfilled _ _ redeemer _ _ _ _) => [redeemer]
  | _ => []

/-- None of them is an authority of the program. -/
theorem parties_external (h : execute env i w = .ok w') (he : e ∈ emit ⟨env, i⟩ w) :
    ∀ p ∈ e.parties, p ∉ programAuthorities := by
  have key : ∀ {k : ExternalKey} {p : Pubkey}, p ∈ [k.key] → p ∉ programAuthorities := by
    intro k p hp
    rw [List.mem_singleton.mp hp]
    exact k.external
  obtain ⟨es, hes, hmem⟩ := mem_emit he
  cases i with
  | offerVaultDeposit | offerVaultWithdraw | redemptionVaultDeposit | redemptionVaultWithdraw
  | mintTo =>
    cases hes
    obtain rfl := List.mem_singleton.mp hmem
    exact fun p => key
  | takeOffer | takeOfferPermissionless =>
    simp only [events, bind_eq_ok, pure_eq_ok] at hes
    obtain ⟨_, _, rfl⟩ := hes
    obtain rfl := List.mem_singleton.mp hmem
    exact fun p => key
  | createRedemptionRequest | cancelRedemptionRequest =>
    simp only [events, createEvent, cancelEvent, bind_eq_ok, pure_eq_ok] at hes
    obtain ⟨_, ⟨_, _, rfl⟩, rfl⟩ := hes
    obtain rfl := List.mem_singleton.mp hmem
    exact fun p => key
  | fulfillRedemptionRequest ctx =>
    obtain ⟨_, _, _, r, _, _, _, _, _, _, hf⟩ := fulfillRedemptionRequest_ok h
    rw [emit_fulfillRequest hf] at he
    obtain rfl := List.mem_singleton.mp he
    intro p hp
    rw [List.mem_singleton.mp hp, hf.redeemer]
    exact r.redeemer.external
  | getNav | getApy | getNavAdjustment | getTvl | getCirculatingSupply
  | updateRedemptionOfferFee =>
    simp only [events, bind_eq_ok, pure_eq_ok] at hes
    obtain ⟨_, _, rfl⟩ := hes
    obtain rfl := List.mem_singleton.mp hmem
    exact List.forall_mem_nil _
  | transferMintAuthorityToProgram | transferMintAuthorityToBoss | makeRedemptionOffer =>
    cases hes
    obtain rfl := List.mem_singleton.mp hmem
    exact List.forall_mem_nil _
  | initializePermissionlessAuthority =>
    cases hes
    cases hmem
  | _ =>
    have hsubject := subject_of_mem_emit he
    have hnil : e.parties = [] := by
      cases e
      all_goals first | rfl | cases hsubject
    rw [hnil]
    exact List.forall_mem_nil _

theorem bossOf_notMem (o : Option State) : bossOf o ∉ programAuthorities := by
  cases o with
  | none => decide
  | some s => exact s.boss.external

/-! ## What an event says about a vault -/

/-- What the boss puts into a vault. -/
def deposited (vault mint : Pubkey) (_ : World) : Event → ℕ
  | .offerVaultDeposit k amount _ =>
    if Seeds.offerVaultAuthority = vault ∧ k = mint then amount.toNat else 0
  | .redemptionVaultDeposit k amount _ =>
    if Seeds.redemptionOfferVaultAuthority = vault ∧ k = mint then amount.toNat else 0
  | _ => 0

def withdrawn (vault mint : Pubkey) (_ : World) : Event → ℕ
  | .offerVaultWithdraw k amount _ =>
    if Seeds.offerVaultAuthority = vault ∧ k = mint then amount.toNat else 0
  | .redemptionVaultWithdraw k amount _ =>
    if Seeds.redemptionOfferVaultAuthority = vault ∧ k = mint then amount.toNat else 0
  | _ => 0

/-- What an exchange pays a user out of a vault: nothing where the program mints the token. -/
def paidByVault (vault mint : Pubkey) (w : World) : Event → ℕ
  | .offerTaken k _ out _ _ | .offerTakenPermissionless k _ out _ _ =>
    if Seeds.offerVaultAuthority = vault ∧ k.tokenOutMint = mint then
      if controls (booksOf w.ledger) mint then 0 else out.toNat
    else 0
  | .redemptionRequest (.fulfilled _ k _ _ _ out _) =>
    if Seeds.redemptionOfferVaultAuthority = vault ∧ k.tokenOutMint = mint then
      if controls (booksOf w.ledger) mint then 0 else out.toNat
    else 0
  | _ => 0

/-- What a new request locks in the redemption vault. -/
def locked (vault mint : Pubkey) (_ : World) : Event → ℕ
  | .redemptionRequest (.created _ k _ amount _) =>
    if Seeds.redemptionOfferVaultAuthority = vault ∧ k.tokenInMint = mint then amount.toNat else 0
  | _ => 0

/-- What leaves the redemption vault when a request is resolved. -/
def unlocked (vault mint : Pubkey) (_ : World) : Event → ℕ
  | .redemptionRequest (.cancelled _ k _ amount _) =>
    if Seeds.redemptionOfferVaultAuthority = vault ∧ k.tokenInMint = mint then amount.toNat else 0
  | .redemptionRequest (.fulfilled _ k _ net fee _ _) =>
    if Seeds.redemptionOfferVaultAuthority = vault ∧ k.tokenInMint = mint then
      net.toNat + fee.toNat
    else 0
  | _ => 0

section Vault

variable {b : Books} {vault mint : Pubkey}

theorem single_account (wallet k : Pubkey) (n : ℕ) :
    (Pi.single (b.account wallet k) n : Ata → ℕ) (b.account vault mint) =
      if wallet = vault ∧ k = mint then n else 0 := by
  rw [Pi.single_apply]
  have hiff : b.account vault mint = b.account wallet k ↔ wallet = vault ∧ k = mint := by
    constructor
    · intro he
      exact ⟨(congrArg Ata.wallet he).symm, (congrArg Ata.mint he).symm⟩
    · rintro ⟨rfl, rfl⟩
      rfl
  simp only [hiff]

/-- What leaves an account of the program is withdrawn, paid out or unlocked. -/
theorem lostBy_vault {w : World} {e : Event} (hv : vault ∈ programAuthorities)
    (he : ∀ p ∈ e.parties, p ∉ programAuthorities) :
    lostBy vault mint w e =
      withdrawn vault mint w e + paidByVault vault mint w e + unlocked vault mint w e := by
  have hparty : ∀ p ∈ e.parties, p ≠ vault := fun p hp heq => he p hp (heq ▸ hv)
  rw [lostBy]
  cases e with
  | offerTaken k net out fee user | offerTakenPermissionless k net out fee user =>
    have huser : user ≠ vault := hparty user List.mem_cons_self
    by_cases hk : k.tokenOutMint = mint <;>
      simp [movement, exchange, single_account, withdrawn, paidByVault, unlocked, huser, hk]
  | redemptionRequest e =>
    cases e with
    | created _ k redeemer amount _ =>
      have huser : redeemer ≠ vault := hparty redeemer List.mem_cons_self
      simp [movement, pays, Movement.transfer, single_account, withdrawn, paidByVault, unlocked,
        huser]
    | cancelled _ k redeemer amount _ =>
      simp [movement, pays, Movement.transfer, single_account, withdrawn, paidByVault, unlocked]
    | fulfilled _ k redeemer net fee out _ =>
      by_cases hk : k.tokenOutMint = mint <;>
        simp [movement, exchange, single_account, withdrawn, paidByVault, unlocked, hk,
          Nat.add_comm]
  | offerVaultDeposit _ _ signer | redemptionVaultDeposit _ _ signer =>
    have huser : signer ≠ vault := hparty signer List.mem_cons_self
    simp [movement, pays, Movement.transfer, single_account, withdrawn, paidByVault, unlocked,
      huser]
  | _ =>
    simp [movement, pays, Movement.transfer, Movement.none, Movement.issue, single_account,
      withdrawn, paidByVault, unlocked]

/-- What reaches an account of the program is deposited or locked. -/
theorem gainedBy_vault {w : World} {e : Event} (hv : vault ∈ programAuthorities)
    (he : ∀ p ∈ e.parties, p ∉ programAuthorities) :
    gainedBy vault mint w e = deposited vault mint w e + locked vault mint w e := by
  have hparty : ∀ p ∈ e.parties, p ≠ vault := fun p hp heq => he p hp (heq ▸ hv)
  have hboss : bossOf w.state ≠ vault := fun heq => bossOf_notMem w.state (heq ▸ hv)
  rw [gainedBy]
  cases e with
  | offerTaken _ _ _ _ user | offerTakenPermissionless _ _ _ _ user =>
    have huser : user ≠ vault := hparty user List.mem_cons_self
    simp [movement, exchange, single_account, deposited, locked, huser, hboss]
  | redemptionRequest e =>
    cases e with
    | created _ k redeemer amount _ =>
      simp [movement, pays, Movement.transfer, single_account, deposited, locked]
    | cancelled _ _ redeemer _ _ =>
      have huser : redeemer ≠ vault := hparty redeemer List.mem_cons_self
      simp [movement, pays, Movement.transfer, single_account, deposited, locked, huser]
    | fulfilled _ _ redeemer _ _ _ _ =>
      have huser : redeemer ≠ vault := hparty redeemer List.mem_cons_self
      simp [movement, exchange, single_account, deposited, locked, huser, hboss]
  | offerVaultWithdraw _ _ signer | redemptionVaultWithdraw _ _ signer
  | onycTokensMinted _ signer _ =>
    have huser : signer ≠ vault := hparty signer List.mem_cons_self
    simp [movement, pays, Movement.transfer, Movement.issue, single_account, deposited, locked,
      huser]
  | _ =>
    simp [movement, pays, Movement.transfer, Movement.none, single_account, deposited, locked]

theorem requests_elsewhere (mint : Pubkey) (hv : Seeds.redemptionOfferVaultAuthority ≠ vault)
    (w : World) (e : Event) : unlocked vault mint w e = 0 ∧ locked vault mint w e = 0 := by
  cases e with
  | redemptionRequest e => cases e <;> simp [unlocked, locked, hv]
  | _ => exact ⟨rfl, rfl⟩

theorem vaults_elsewhere (mint : Pubkey) (ho : Seeds.offerVaultAuthority ≠ vault)
    (hr : Seeds.redemptionOfferVaultAuthority ≠ vault) (w : World) (e : Event) :
    withdrawn vault mint w e = 0 ∧ paidByVault vault mint w e = 0 ∧
      deposited vault mint w e = 0 := by
  cases e with
  | redemptionRequest e => cases e <;> simp [withdrawn, paidByVault, deposited, hr]
  | _ => simp [withdrawn, paidByVault, deposited, ho, hr]

end Vault

theorem counted_add (f g : World → Event → ℕ) (a : Action) (w : World) :
    counted (fun w e => f w e + g w e) a w = counted f a w + counted g a w :=
  List.sum_map_add

/-- A success changes what an account of the program holds by what its events say. -/
theorem vault_step {vault : Pubkey} (hv : vault ∈ programAuthorities) (mint : Pubkey)
    (hexact : w.ledger.Exact) (h : execute env i w = .ok w') :
    holding w'.ledger vault mint + (counted (withdrawn vault mint) ⟨env, i⟩ w +
        counted (paidByVault vault mint) ⟨env, i⟩ w + counted (unlocked vault mint) ⟨env, i⟩ w) =
      holding w.ledger vault mint + (counted (deposited vault mint) ⟨env, i⟩ w +
        counted (locked vault mint) ⟨env, i⟩ w) := by
  have hstep := holding_step hexact h vault mint
  have hlost : counted (lostBy vault mint) ⟨env, i⟩ w =
      counted (fun w e => withdrawn vault mint w e + paidByVault vault mint w e +
        unlocked vault mint w e) ⟨env, i⟩ w :=
    counted_congr fun e he => lostBy_vault hv (parties_external h he)
  have hgained : counted (gainedBy vault mint) ⟨env, i⟩ w =
      counted (fun w e => deposited vault mint w e + locked vault mint w e) ⟨env, i⟩ w :=
    counted_congr fun e he => gainedBy_vault hv (parties_external h he)
  rw [hlost, hgained] at hstep
  rwa [counted_add, counted_add, counted_add] at hstep

/-! ## What is locked -/

theorem locked_of_subject {mint : Pubkey} (he : e.subject ≠ .redemptions) :
    locked Seeds.redemptionOfferVaultAuthority mint w e = 0 ∧
      unlocked Seeds.redemptionOfferVaultAuthority mint w e = 0 := by
  cases e
  all_goals first | exact ⟨rfl, rfl⟩ | exact absurd rfl he

/-- The open requests lock what the events of requests say. -/
theorem locked_step (mint : Pubkey) (h : execute env i w = .ok w') :
    lockedAmount w'.redemptionRequests mint +
        counted (unlocked Seeds.redemptionOfferVaultAuthority mint) ⟨env, i⟩ w =
      lockedAmount w.redemptionRequests mint +
        counted (locked Seeds.redemptionOfferVaultAuthority mint) ⟨env, i⟩ w := by
  by_cases hi : i.subject = .redemptions
  · cases i with
    | makeRedemptionOffer ctx fee =>
      obtain ⟨_, _, _, _, _, _, _, _, _, _, rfl⟩ := makeRedemptionOffer_ok h
      have hemit : emit ⟨env, .makeRedemptionOffer ctx fee⟩ w = [_] := emit_of_ok rfl
      rw [counted_single hemit, counted_single hemit]
      rfl
    | updateRedemptionOfferFee ctx fee =>
      obtain ⟨_, o, _, _, ho, _, rfl⟩ := updateRedemptionOfferFee_ok h
      rw [counted_single (emit_updateFee ho), counted_single (emit_updateFee ho)]
      rfl
    | createRedemptionRequest ctx amount =>
      obtain ⟨_, o, _, hc⟩ := createRedemptionRequest_ok h
      have hemit : emit ⟨env, .createRedemptionRequest ctx amount⟩ w = [_] :=
        emit_createRequest hc.offer_stored
      rw [counted_single hemit, counted_single hemit, hc.result]
      show lockedAmount (w.redemptionRequests.insert _ _) mint + 0 = _
      rw [lockedAmount_insert hc.fresh, locked]
      simp only [true_and, add_zero]
    | cancelRedemptionRequest ctx =>
      obtain ⟨_, _, r, _, _, hc⟩ := cancelRedemptionRequest_ok h
      have hemit : emit ⟨env, .cancelRedemptionRequest ctx⟩ w = [_] :=
        emit_cancelRequest hc.request_stored
      rw [counted_single hemit, counted_single hemit, hc.result]
      show lockedAmount (w.redemptionRequests.erase _) mint + _ = _ + 0
      have herase := lockedAmount_erase hc.request_stored mint
      rw [hc.request_offer] at herase
      simp only [unlocked, true_and]
      omega
    | fulfillRedemptionRequest ctx =>
      obtain ⟨_, _, _, r, _, _, _, _, _, _, hf⟩ := fulfillRedemptionRequest_ok h
      rw [counted_single (emit_fulfillRequest hf), counted_single (emit_fulfillRequest hf),
        hf.outcome]
      show lockedAmount (w.redemptionRequests.erase _) mint + _ = _ + 0
      have herase := lockedAmount_erase hf.request_stored mint
      have hparts := processRedemptionCore_parts hf.priced
      rw [hf.request_offer] at herase
      simp only [unlocked, true_and, hparts]
      omega
    | _ => cases hi
  · have hzero : ∀ e ∈ emit ⟨env, i⟩ w, e.subject ≠ .redemptions := by
      intro e he
      rwa [subject_of_mem_emit he]
    rw [counted_zero fun e he => (locked_of_subject (hzero e he)).1,
      counted_zero fun e he => (locked_of_subject (hzero e he)).2, requests_kept h hi]

end Step

/-! ## Over a run -/

/-- A count of events, added up over the successes of a run. -/
def runTotal (f : World → Event → ℕ) (w : World) (actions : List Action) : ℕ :=
  tally step (counted f) w actions

theorem runTotal_zero {f : World → Event → ℕ} (h : ∀ w e, f w e = 0) (w : World)
    (actions : List Action) : runTotal f w actions = 0 := by
  apply tally_eq_zero
  intro a w
  exact counted_zero fun e _ => h w e

/-- What is locked after a run: what was locked before and since, less what was unlocked. -/
theorem locked_run (w₀ : World) (actions : List Action) (mint : Pubkey) :
    lockedAmount (run step w₀ actions).redemptionRequests mint +
        runTotal (unlocked Seeds.redemptionOfferVaultAuthority mint) w₀ actions =
      lockedAmount w₀.redemptionRequests mint +
        runTotal (locked Seeds.redemptionOfferVaultAuthority mint) w₀ actions :=
  tally_balance (fun w => lockedAmount w.redemptionRequests mint)
    (counted (unlocked Seeds.redemptionOfferVaultAuthority mint))
    (counted (locked Seeds.redemptionOfferVaultAuthority mint))
    (fun _ _ _ _ hs => locked_step mint hs) (along_true w₀ actions)

/-- What an account of the program holds after a run: what it held, and what was deposited and
locked since, less what was withdrawn, paid out and unlocked. -/
theorem vault_run {w₀ : World} (hexact : w₀.ledger.Exact) (actions : List Action) (mint : Pubkey)
    {vault : Pubkey} (hv : vault ∈ programAuthorities) :
    holding (run step w₀ actions).ledger vault mint + (runTotal (withdrawn vault mint) w₀ actions +
        runTotal (paidByVault vault mint) w₀ actions + runTotal (unlocked vault mint) w₀ actions) =
      holding w₀.ledger vault mint + (runTotal (deposited vault mint) w₀ actions +
        runTotal (locked vault mint) w₀ actions) := by
  have halong : Along step (fun w _ => w.ledger.Exact) w₀ actions :=
    along_iff.mpr fun pre _ _ _ => hexact.calls (calls_run w₀ pre)
  have hbalance := tally_balance (fun w => holding w.ledger vault mint)
    (fun a w => counted (withdrawn vault mint) a w + counted (paidByVault vault mint) a w +
      counted (unlocked vault mint) a w)
    (fun a w => counted (deposited vault mint) a w + counted (locked vault mint) a w)
    (fun a w w' hc hs => vault_step hv mint hc hs) halong
  rwa [tally_add, tally_add, tally_add] at hbalance

/-- What the redemption vault holds beyond what is locked moves only with deposits, withdrawals
and payments. -/
theorem redemption_margin_run {w₀ : World} (hexact : w₀.ledger.Exact) (actions : List Action)
    (mint : Pubkey) :
    vaultBalance (run step w₀ actions).ledger mint + lockedAmount w₀.redemptionRequests mint +
        (runTotal (withdrawn Seeds.redemptionOfferVaultAuthority mint) w₀ actions +
          runTotal (paidByVault Seeds.redemptionOfferVaultAuthority mint) w₀ actions) =
      vaultBalance w₀.ledger mint +
        lockedAmount (run step w₀ actions).redemptionRequests mint +
          runTotal (deposited Seeds.redemptionOfferVaultAuthority mint) w₀ actions := by
  have hvault := vault_run hexact actions mint vaultAuthority_mem
  have hlocked := locked_run w₀ actions mint
  rw [holding_redemptionVault, holding_redemptionVault] at hvault
  omega

/-- The offer vault gives nothing but withdrawals and payments and takes nothing but deposits. -/
theorem offer_vault_accounts {w₀ : World} (hexact : w₀.ledger.Exact) (actions : List Action)
    (mint : Pubkey) :
    holding (run step w₀ actions).ledger Seeds.offerVaultAuthority mint +
        (runTotal (withdrawn Seeds.offerVaultAuthority mint) w₀ actions +
          runTotal (paidByVault Seeds.offerVaultAuthority mint) w₀ actions) =
      holding w₀.ledger Seeds.offerVaultAuthority mint +
        runTotal (deposited Seeds.offerVaultAuthority mint) w₀ actions := by
  have hv : Seeds.offerVaultAuthority ∈ programAuthorities := by decide
  have hne : Seeds.redemptionOfferVaultAuthority ≠ Seeds.offerVaultAuthority := by decide
  have hvault := vault_run hexact actions mint hv
  have hrequests := requests_elsewhere mint hne
  rw [runTotal_zero fun w e => (hrequests w e).1, runTotal_zero fun w e => (hrequests w e).2]
    at hvault
  omega

/-- Of the half ONyc the boss deposits a fifth pays a take. -/
theorem offer_vault_accounts_take :
    let actions := Sample.market false ++
      [Sample.act (.takeOfferPermissionless Sample.aliceTakes 100000 none)]
    holding (run step (World.genesis (Sample.ledger Sample.issuer)) actions).ledger
      Seeds.offerVaultAuthority Sample.onyc + (0 + 100000000) = 0 + 500000000 := by
  intro actions
  have hexact : (World.genesis (Sample.ledger Sample.issuer)).ledger.Exact :=
    Sample.exact_ledger Sample.issuer
  have haccounts := offer_vault_accounts hexact actions Sample.onyc
  have hwithdrawn : runTotal (withdrawn Seeds.offerVaultAuthority Sample.onyc)
      (World.genesis (Sample.ledger Sample.issuer)) actions = 0 := by decide +kernel
  have hpaid : runTotal (paidByVault Seeds.offerVaultAuthority Sample.onyc)
      (World.genesis (Sample.ledger Sample.issuer)) actions = 100000000 := by decide +kernel
  have hdeposited : runTotal (deposited Seeds.offerVaultAuthority Sample.onyc)
      (World.genesis (Sample.ledger Sample.issuer)) actions = 500000000 := by decide +kernel
  rwa [hwithdrawn, hpaid, hdeposited] at haccounts

/-- The accounts of the other two authorities, which payments only pass through or never
reach, keep what they hold. -/
theorem pass_through_accounts {w₀ : World} (hexact : w₀.ledger.Exact) (actions : List Action)
    (mint : Pubkey) {wallet : Pubkey}
    (hw : wallet = Seeds.permissionlessAuthority ∨ wallet = Seeds.mintAuthority) :
    holding (run step w₀ actions).ledger wallet mint = holding w₀.ledger wallet mint := by
  have hv : wallet ∈ programAuthorities := by rcases hw with rfl | rfl <;> decide
  have hoffer : Seeds.offerVaultAuthority ≠ wallet := by rcases hw with rfl | rfl <;> decide
  have hredemption : Seeds.redemptionOfferVaultAuthority ≠ wallet := by
    rcases hw with rfl | rfl <;> decide
  have hvault := vault_run hexact actions mint hv
  have hrequests := requests_elsewhere mint hredemption
  have hvaults := vaults_elsewhere mint hoffer hredemption
  rw [runTotal_zero fun w e => (hrequests w e).1, runTotal_zero fun w e => (hrequests w e).2,
    runTotal_zero fun w e => (hvaults w e).1, runTotal_zero fun w e => (hvaults w e).2.1,
    runTotal_zero fun w e => (hvaults w e).2.2] at hvault
  exact hvault

/-- A take on the permissionless route leaves what lies in the account it passes through. -/
theorem pass_through_accounts_take :
    let actions := Sample.market false ++
      [Sample.act (.takeOfferPermissionless Sample.aliceTakes 100000 none)]
    holding (run step (World.genesis (Sample.ledger Sample.issuer)) actions).ledger
      Seeds.permissionlessAuthority Sample.usdc = 7 := by
  intro actions
  have hexact : (World.genesis (Sample.ledger Sample.issuer)).ledger.Exact :=
    Sample.exact_ledger Sample.issuer
  rw [pass_through_accounts hexact actions Sample.usdc (.inl rfl)]
  decide +kernel

/-- A run from a new deployment leaves the redemption vault covering what is locked exactly when
no more was withdrawn and paid from it than it began with and was given. -/
theorem covers_locked_iff {l : Ledger} (hexact : l.Exact) (actions : List Action) (mint : Pubkey) :
    lockedAmount (run step (World.genesis l) actions).redemptionRequests mint ≤
        vaultBalance (run step (World.genesis l) actions).ledger mint ↔
      runTotal (withdrawn Seeds.redemptionOfferVaultAuthority mint) (World.genesis l) actions +
          runTotal (paidByVault Seeds.redemptionOfferVaultAuthority mint)
            (World.genesis l) actions ≤
        vaultBalance l mint +
          runTotal (deposited Seeds.redemptionOfferVaultAuthority mint) (World.genesis l)
            actions := by
  have hgenesis : (World.genesis l).ledger.Exact := hexact
  have hmargin := redemption_margin_run hgenesis actions mint
  have hnothing : lockedAmount (World.genesis l).redemptionRequests mint = 0 := rfl
  have hledger : (World.genesis l).ledger = l := rfl
  rw [hnothing, hledger] at hmargin
  omega

/-- Alice is paid from what Bob has locked, and the vault no longer covers Bob's request. -/
theorem covers_locked_iff_fulfilled :
    let w := run step (World.genesis (Sample.ledger Sample.issuer))
      (Sample.setup ++ [Sample.aliceRequests, Sample.bobRequests, Sample.fulfillAlice])
    ¬ lockedAmount w.redemptionRequests Sample.usdc ≤ vaultBalance w.ledger Sample.usdc := by
  intro w
  rw [covers_locked_iff (Sample.exact_ledger Sample.issuer)]
  decide +kernel

end OnreApp.Program
