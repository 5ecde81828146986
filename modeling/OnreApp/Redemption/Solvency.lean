import OnreApp.Program.Genesis
import OnreApp.Redemption.Book

/-!
# The redemption vault and what is locked in it

One vault account a mint holds both what open requests have locked and what redemptions are
paid from. It covers what is locked as long as no redemption is paid from more than the rest.
-/
namespace OnreApp.Redemption

open Library.Checked Library.FiniteStore Library.Outcome Library.Run Offers Program Tokens Utils

/-- What the open requests of all offers that take `mint` in have locked. An offer's address
is derived from its mints. -/
def lockedAmount (requests : Store RedemptionRequestPda RedemptionRequest) (mint : Pubkey) : ℕ :=
  total requests fun _ r => if r.offer.tokenInMint = mint then r.amount.toNat else 0

/-- The balance of the redemption vault's associated token account for a mint. -/
def vaultBalance (l : Ledger) (mint : Pubkey) : ℕ :=
  (l.mints.lookup mint).elim 0 fun m => l.amount (redemptionVault mint m.tokenProgram)

/-- The vault covers what is locked, for every mint. -/
def Covered (w : World) : Prop :=
  ∀ mint, lockedAmount w.redemptionRequests mint ≤ vaultBalance w.ledger mint

/-- What fulfilling a request would take from the vault to pay `token_out`: the quoted amount,
or nothing where the program mints it. -/
def payoutFromVault (env : Env) (ctx : FulfillRedemptionRequest) (w : World) : Except Error ℕ := do
  let offer ← w.loadOffer ctx.offer
  let redemptionOffer ← w.loadRedemptionOffer ctx.redemptionOffer
  let redemptionRequest ← w.loadRedemptionRequest ctx.redemptionRequest
  let tokenInMint ← w.ledger.loadMint ctx.tokenInMint
  let tokenOutMint ← w.ledger.loadMint ctx.tokenOutMint
  let quote ← processRedemptionCore env offer redemptionRequest.amount tokenInMint tokenOutMint
    redemptionOffer.feeBasisPoints
  pure (if programControlsMint tokenOutMint Seeds.mintAuthority then 0
    else quote.tokenOutAmount.toNat)

def withdrawsRedemptionVault : Instruction → Bool
  | .redemptionVaultWithdraw _ _ => true
  | _ => false

/-- A fulfillment pays at most what the vault holds of `token_out` beyond what is locked; the
boss does not withdraw. -/
def SparesLocked (w : World) (a : Action) : Prop :=
  match a.instruction with
  | .fulfillRedemptionRequest ctx =>
    match payoutFromVault a.env ctx w with
    | .ok payout => lockedAmount w.redemptionRequests ctx.tokenOutMint + payout ≤
        vaultBalance w.ledger ctx.tokenOutMint
    | .error _ => True
  | .redemptionVaultWithdraw _ _ => False
  | _ => True

instance (w : World) (a : Action) : Decidable (SparesLocked w a) := by
  unfold SparesLocked
  split
  · split
    · infer_instance
    · infer_instance
  · infer_instance
  · infer_instance

/-! ## Vault accounts -/

section VaultAccounts

variable {l l' : Ledger} {allow : TokenCpi → Prop} {k m : Pubkey} {p : TokenProgram} {mint : Mint}

theorem vaultAuthority_mem : Seeds.redemptionOfferVaultAuthority ∈ programAuthorities := by decide

theorem ne_redemptionVault (signer : ExternalKey) {a : Ata} (ha : a.wallet = signer.key) :
    redemptionVault m p ≠ a := by
  intro he
  exact signer.ne_authority vaultAuthority_mem ((congrArg Ata.wallet he).trans ha).symm

/-- A mint has one vault account: the one under the mint's own token program. -/
theorem redemptionVault_eq_iff (h : l.HasAccount (redemptionVault k p))
    (hm : l.mints.lookup m = some mint) :
    redemptionVault m mint.tokenProgram = redemptionVault k p ↔ m = k := by
  constructor
  · exact congrArg Ata.mint
  · intro he
    obtain ⟨m', hm', hp⟩ := l.mint_exists _ _ (Ledger.lookup_of_hasAccount h)
    have hk : l.mints.lookup k = some mint := he ▸ hm
    have hmint : mint = m' := Option.some.inj (hk.symm.trans hm')
    have hprogram : mint.tokenProgram = p := hmint ▸ hp
    rw [he, hprogram]

theorem vaultBalance_of_mint (hm : l.mints.lookup m = some mint) :
    vaultBalance l m = l.amount (redemptionVault m mint.tokenProgram) := by
  rw [vaultBalance, hm]
  rfl

theorem vaultBalance_of_account (h : l.HasAccount (redemptionVault k p)) :
    vaultBalance l k = l.amount (redemptionVault k p) := by
  obtain ⟨mint, hm, _⟩ := l.mint_exists _ _ (Ledger.lookup_of_hasAccount h)
  have hk : l.mints.lookup k = some mint := hm
  rw [vaultBalance_of_mint hk, (redemptionVault_eq_iff h hk).mpr rfl]

/-- Calls do not move a mint to another token program, so the account stays the same one. -/
theorem vaultBalance_of_calls (h : Calls allow l l') (hm : l.mints.lookup m = some mint) :
    vaultBalance l' m = l'.amount (redemptionVault m mint.tokenProgram) := by
  have hfixed := h.mint_fixed m
  rw [hm] at hfixed
  obtain ⟨mint', hm', he⟩ := Option.map_eq_some_iff.mp hfixed
  rw [vaultBalance_of_mint hm', (Prod.mk.inj he).1]

theorem vaultBalance_eq_zero (hm : l.mints.lookup m = none) : vaultBalance l m = 0 := by
  rw [vaultBalance, hm]
  rfl

theorem vaultBalance_of_no_mint (h : Calls allow l l') (hm : l.mints.lookup m = none) :
    vaultBalance l' m = 0 := by
  have hfixed := h.mint_fixed m
  rw [hm] at hfixed
  exact vaultBalance_eq_zero (Option.map_eq_none_iff.mp hfixed)

/-- Calls that take nothing from the vault leave it at least what it held. -/
theorem vaultBalance_le (h : Calls allow l l')
    (hd : ∀ c, allow c → ∀ m p, ¬ c.debits (redemptionVault m p)) (m : Pubkey) :
    vaultBalance l m ≤ vaultBalance l' m := by
  cases hm : l.mints.lookup m with
  | none =>
    rw [vaultBalance, hm]
    exact Nat.zero_le _
  | some mint =>
    rw [vaultBalance_of_mint hm, vaultBalance_of_calls h hm]
    exact h.amount_le fun c hc => hd c hc _ _

/-- The same for calls within wallets other than the vault's. -/
theorem vaultBalance_le_within {debited credited : List Pubkey}
    (h : Calls (TokenCpi.Within debited credited) l l')
    (hd : Seeds.redemptionOfferVaultAuthority ∉ debited) (m : Pubkey) :
    vaultBalance l m ≤ vaultBalance l' m :=
  vaultBalance_le h (fun _ hc _ _ hdebit => hd (hc.debits_mem hdebit)) m

theorem vaultBalance_initIfNeeded {a : Ata} (h : l.initIfNeeded a = .ok l') (m : Pubkey) :
    vaultBalance l' m = vaultBalance l m := by
  have hcalls : Calls (fun _ => False) l l' := .of_initIfNeeded h
  cases hm : l.mints.lookup m with
  | none => rw [vaultBalance_of_no_mint hcalls hm, vaultBalance_eq_zero hm]
  | some mint =>
    rw [vaultBalance_of_calls hcalls hm, vaultBalance_of_mint hm]
    exact hcalls.amount_eq fun _ => False.elim

/-- What one vault account pays its mint's balance loses, and no other does. -/
theorem vaultBalance_debit {n : ℕ} (h : Calls allow l l') (hk : l.HasAccount (redemptionVault k p))
    (hdebit : ∀ a, a.wallet = Seeds.redemptionOfferVaultAuthority →
      l'.amount a + (if a = redemptionVault k p then n else 0) = l.amount a) (m : Pubkey) :
    vaultBalance l' m + (if m = k then n else 0) = vaultBalance l m := by
  cases hm : l.mints.lookup m with
  | none =>
    have hne : m ≠ k := by
      intro he
      obtain ⟨mint, hmint, _⟩ := l.mint_exists _ _ (Ledger.lookup_of_hasAccount hk)
      have : l.mints.lookup m = some mint := he ▸ hmint
      rw [hm] at this
      cases this
    rw [vaultBalance_of_no_mint h hm, vaultBalance_eq_zero hm, if_neg hne]
  | some mint =>
    have hd := hdebit (redemptionVault m mint.tokenProgram) rfl
    rw [vaultBalance_of_calls h hm, vaultBalance_of_mint hm, ← hd]
    simp only [redemptionVault_eq_iff hk hm]

end VaultAccounts

section Locked

variable {requests : Store RedemptionRequestPda RedemptionRequest} {p : RedemptionRequestPda}
  {r : RedemptionRequest}

theorem lockedAmount_insert (h : requests.lookup p = none) (m : Pubkey) :
    lockedAmount (requests.insert p r) m =
      lockedAmount requests m + if r.offer.tokenInMint = m then r.amount.toNat else 0 :=
  total_insert_new h _ r

theorem lockedAmount_erase (h : requests.lookup p = some r) (m : Pubkey) :
    lockedAmount (requests.erase p) m + (if r.offer.tokenInMint = m then r.amount.toNat else 0) =
      lockedAmount requests m := by
  have he := total_erase requests
    (fun _ r => if r.offer.tokenInMint = m then r.amount.toNat else 0) p
  rwa [weigh_of_some h] at he

end Locked

/-! ## What each instruction does to the margin -/

section Margin

variable {env : Env} {w w' : World} {s : State} {o : RedemptionOffer} {r : RedemptionRequest}
  {l₁ l₂ l₃ : Ledger}

/-- Creating a request locks what it pays in. -/
theorem RequestCreated.covered {ctx : CreateRedemptionRequest} {amount : UInt64}
    (h : RequestCreated env ctx amount w w' s o l₁) (hexact : w.ledger.Exact) (hc : Covered w) :
    Covered w' := by
  intro m
  rw [h.result]
  show lockedAmount (w.redemptionRequests.insert _ _) m ≤ vaultBalance l₁ m
  rw [lockedAmount_insert h.fresh]
  obtain ⟨hcan, rfl⟩ := transferTokens_eq_ok.mp h.locked
  have hcalls : Calls (TokenCpi.Within [ctx.redeemer.key] [Seeds.redemptionOfferVaultAuthority])
      w.ledger _ :=
    transferTokens_calls h.locked ⟨List.mem_singleton_self _, List.mem_singleton_self _⟩
  have htokenIn : ctx.redemptionOffer.tokenInMint = ctx.tokenInMint := by
    rw [h.seeds, h.tokenIn]
  have hcm := hc m
  show _ + (if ctx.redemptionOffer.tokenInMint = m then amount.toNat else 0) ≤ _
  by_cases hm : ctx.tokenInMint = m
  · subst hm
    have hcredit := transferTokens_credit h.locked hexact
      (ne_redemptionVault ctx.redeemer rfl).symm
    have hvault' := hcalls.hasAccount hcan.2.1
    rw [if_pos htokenIn, vaultBalance_of_account hvault', hcredit]
    rw [vaultBalance_of_account hcan.2.1] at hcm
    omega
  · rw [if_neg (htokenIn ▸ hm)]
    refine hcm.trans (vaultBalance_le_within hcalls ?_ m)
    rw [List.mem_singleton]
    exact (ctx.redeemer.ne_authority vaultAuthority_mem).symm

/-- Cancelling a request returns what it has locked. -/
theorem RequestCancelled.covered {ctx : CancelRedemptionRequest}
    (h : RequestCancelled env ctx w w' s o r l₁ l₂) (hc : Covered w) : Covered w' := by
  intro m
  rw [h.result]
  show lockedAmount (w.redemptionRequests.erase _) m ≤ vaultBalance l₂ m
  have htokenIn : r.offer.tokenInMint = ctx.tokenInMint := by
    rw [h.request_offer, h.seeds, h.tokenIn]
  have hlocked := lockedAmount_erase h.request_stored m
  have hcm := hc m
  obtain ⟨hcan, _⟩ := transferTokens_eq_ok.mp h.returned
  have hcalls : Calls (fun _ => True) l₁ l₂ := transferTokens_calls h.returned trivial
  have hdebit := vaultBalance_debit (m := m) hcalls hcan.1
    fun a ha => transferTokens_debit h.returned
      fun he => h.redeemer_ne_vault ((congrArg Ata.wallet he).symm.trans ha)
  rw [vaultBalance_initIfNeeded h.redeemerAccount] at hdebit
  rw [htokenIn] at hlocked
  by_cases hm : ctx.tokenInMint = m
  · rw [if_pos hm] at hlocked
    rw [if_pos hm.symm] at hdebit
    omega
  · rw [if_neg hm] at hlocked
    rw [if_neg (Ne.symm hm)] at hdebit
    omega

section Fulfilled

variable {ctx : FulfillRedemptionRequest} {offer : Offer} {tokenIn tokenOut : MintAccount}
  {result : RedemptionProcessResult}

theorem RequestFulfilled.payout
    (h : RequestFulfilled env ctx w w' s offer o r tokenIn tokenOut result l₁ l₂ l₃) :
    payoutFromVault env ctx w = .ok (if programControlsMint tokenOut Seeds.mintAuthority then 0
      else result.tokenOutAmount.toNat) := by
  simp only [payoutFromVault, bind_eq_ok, World.loadOffer_eq_ok, World.loadRedemptionOffer_eq_ok,
    World.loadRedemptionRequest_eq_ok, Ledger.loadMint_eq_ok, pure_eq_ok]
  exact ⟨offer, h.underlying_stored, o, h.offer_stored, r, h.request_stored, tokenIn,
    ⟨h.tokenIn, h.tokenIn_key⟩, tokenOut, ⟨h.tokenOut, h.tokenOut_key⟩, result, h.priced, rfl⟩

/-- A fulfillment takes the request and the payout from the vault, and unlocks the request. -/
theorem RequestFulfilled.margin
    (h : RequestFulfilled env ctx w w' s offer o r tokenIn tokenOut result l₁ l₂ l₃)
    {payout : ℕ} (hp : payoutFromVault env ctx w = .ok payout) (m : Pubkey) :
    vaultBalance w'.ledger m + lockedAmount w.redemptionRequests m +
        (if m = ctx.tokenOutMint then payout else 0) =
      vaultBalance w.ledger m + lockedAmount w'.redemptionRequests m := by
  obtain rfl := Except.ok.inj (h.payout.symm.trans hp)
  rw [h.outcome]
  show vaultBalance l₃ m + _ + _ = _ + lockedAmount (w.redemptionRequests.erase _) m
  have htokenIn : r.offer.tokenInMint = ctx.tokenInMint := by
    rw [h.request_offer, h.seeds, h.tokenIn_offer]
  have hlocked := lockedAmount_erase h.request_stored m
  rw [htokenIn] at hlocked
  obtain ⟨l, hsettle, hdistribute⟩ := executeRedemptionOperations_eq_ok.mp h.executed
  have hcreated : Calls (fun _ => True) w.ledger l₂ :=
    (Calls.of_initIfNeeded h.userAccount).trans (.of_initIfNeeded h.bossAccount)
  have hsettled : Calls (fun _ => True) l₂ l :=
    (settleTokenIn_calls hsettle).mono fun _ _ => trivial
  have hpaid : Calls (fun _ => True) l l₃ :=
    (distributeTokenOut_calls hdistribute).mono fun _ _ => trivial
  have hboss : ∀ a : Ata, a.wallet = Seeds.redemptionOfferVaultAuthority → a ≠ ctx.bossTokenIn :=
    fun a ha he => h.boss_ne_vault ((congrArg Ata.wallet he).symm.trans ha)
  have huser : ∀ a : Ata, a.wallet = Seeds.redemptionOfferVaultAuthority → a ≠ ctx.userTokenOut :=
    fun a ha he => h.redeemer_ne_vault ((congrArg Ata.wallet he).symm.trans ha)
  have hin := vaultBalance_debit (m := m) hsettled (hcreated.hasAccount h.vaultIn)
    fun a ha => settleTokenIn_debit hsettle (hboss a ha)
  have hout := vaultBalance_debit (m := m) hpaid
    (hsettled.hasAccount (hcreated.hasAccount h.vaultOut))
    fun a ha => distributeTokenOut_debit hdistribute (huser a ha)
  rw [vaultBalance_initIfNeeded h.bossAccount, vaultBalance_initIfNeeded h.userAccount] at hin
  have hparts := processRedemptionCore_parts h.priced
  show _ + _ + (if m = ctx.tokenOutMint then _ else 0) = _
  have hin' : vaultBalance l m + (if m = ctx.tokenInMint then r.amount.toNat else 0) =
      vaultBalance w.ledger m := by
    rw [← hparts]
    exact hin
  have hout' : vaultBalance l₃ m + (if m = ctx.tokenOutMint then
      (if programControlsMint tokenOut Seeds.mintAuthority then 0 else result.tokenOutAmount.toNat)
        else 0) = vaultBalance l m := hout
  have hcomm : (if ctx.tokenInMint = m then r.amount.toNat else 0) =
      if m = ctx.tokenInMint then r.amount.toNat else 0 := if_congr eq_comm rfl rfl
  omega

/-- A covered vault stays covered by a fulfillment exactly if the payout is spare. -/
theorem RequestFulfilled.covered_iff
    (h : RequestFulfilled env ctx w w' s offer o r tokenIn tokenOut result l₁ l₂ l₃)
    {payout : ℕ} (hp : payoutFromVault env ctx w = .ok payout) (hc : Covered w) :
    Covered w' ↔ lockedAmount w.redemptionRequests ctx.tokenOutMint + payout ≤
      vaultBalance w.ledger ctx.tokenOutMint := by
  constructor
  · intro hc'
    have hmargin := h.margin hp ctx.tokenOutMint
    have hafter := hc' ctx.tokenOutMint
    rw [if_pos rfl] at hmargin
    omega
  · intro hspare m
    have hmargin := h.margin hp m
    have hbefore := hc m
    by_cases hm : m = ctx.tokenOutMint
    · subst hm
      rw [if_pos rfl] at hmargin
      omega
    · rw [if_neg hm] at hmargin
      omega

end Fulfilled

end Margin

/-! ## Runs -/

/-- The invariant of a run: tokens transfer exactly and the vault covers what is locked. -/
structure Solvent (w : World) : Prop where
  exact : w.ledger.Exact
  covered : Covered w

/-- Without a change of the requests it is enough that the vault holds no less. -/
theorem Covered.of_le {w w' : World} (h : Covered w)
    (hr : w'.redemptionRequests = w.redemptionRequests)
    (hle : ∀ m, vaultBalance w.ledger m ≤ vaultBalance w'.ledger m) : Covered w' := by
  intro m
  rw [hr]
  exact (h m).trans (hle m)

/-- An instruction that spares what is locked keeps the vault covering it. -/
theorem Covered.step {a : Action} {w w' : World} (h : Covered w) (hexact : w.ledger.Exact)
    (hspare : SparesLocked w a) (hs : step a w = .ok w') : Covered w' := by
  have hboss : ∀ s : State, Seeds.redemptionOfferVaultAuthority ∉ [s.boss.key] := fun s hm =>
    s.boss.ne_authority vaultAuthority_mem (List.mem_singleton.mp hm).symm
  obtain ⟨env, i⟩ := a
  cases execute_effect hs with
  | view | initialized | govern | acceptBoss | kill | close | namePermissionless | editOffer
  | updateRedemptionOfferFee => exact h
  | makeOffer _ _ _ vault =>
    exact h.of_le rfl fun m => (vaultBalance_initIfNeeded vault m).ge
  | deposit _ _ calls =>
    exact h.of_le rfl (vaultBalance_le_within (calls.mono fun _ hc => hc.within) (hboss _))
  | withdraw _ _ vault calls =>
    rcases vault with rfl | ⟨ctx, amount, rfl⟩
    · exact h.of_le rfl (vaultBalance_le_within (calls.mono fun _ hc => hc.within) (by decide))
    · exact hspare.elim
  | @mintTo _ _ a _ _ _ _ _ _ _ _ account minted =>
    have hcalls : Calls (TokenCpi.Within [] [a.wallet]) _ _ :=
      mintTokens_calls minted (List.mem_singleton_self _)
    refine h.of_le rfl fun m => (vaultBalance_initIfNeeded account m).ge.trans ?_
    exact vaultBalance_le_within hcalls List.not_mem_nil m
  | @setMintAuthority _ mint new =>
    have hcalls : Calls (fun c => ∀ a, ¬ c.debits a) w.ledger (w.ledger.setAuthority mint new) :=
      (Calls.refl w.ledger).setAuthority fun _ hd => hd
    exact h.of_le rfl (vaultBalance_le hcalls fun _ hc _ _ => hc _)
  | @take _ user _ _ _ ledger =>
    refine h.of_le rfl (vaultBalance_le_within ledger.calls ?_)
    have huser := (user.ne_authority vaultAuthority_mem).symm
    simp only [takeDebits, List.mem_cons, List.not_mem_nil, or_false, not_or]
    exact ⟨huser, by decide, by decide⟩
  | makeRedemptionOffer _ _ _ _ vaultIn vaultOut =>
    exact h.of_le rfl fun m => (vaultBalance_initIfNeeded vaultIn m).ge.trans
      (vaultBalance_initIfNeeded vaultOut m).ge
  | createRequest _ created => exact created.covered hexact h
  | cancelRequest _ cancelled => exact cancelled.covered h
  | fulfillRequest instr fulfilled =>
    subst instr
    have hpayout := fulfilled.payout
    simp only [SparesLocked, hpayout] at hspare
    exact (fulfilled.covered_iff hpayout h).mpr hspare

theorem Solvent.step {a : Action} {w w' : World} (h : Solvent w) (hspare : SparesLocked w a)
    (hs : step a w = .ok w') : Solvent w' :=
  ⟨h.exact.calls (execute_effect hs).calls, h.covered.step h.exact hspare hs⟩

/-- From before initialization on, with exact tokens: while every fulfillment pays only what
is spare, or mints, and the boss does not withdraw, the vault covers what is locked. -/
theorem vault_covers_locked {l₀ : Ledger} (hexact : l₀.Exact) (actions : List Action)
    (hspare : Along step SparesLocked (World.genesis l₀) actions) (mint : Pubkey) :
    let w := run step (World.genesis l₀) actions
    lockedAmount w.redemptionRequests mint ≤ vaultBalance w.ledger mint := by
  intro w
  have hinit : Solvent (World.genesis l₀) := ⟨hexact, fun m => Nat.zero_le _⟩
  exact (run_invariant (fun _ _ _ hp hc hs => hp.step hc hs) hinit hspare).covered mint

/-- ONyc under the program's authority: Bob is paid by minting, and what Alice has locked
stays in the vault. -/
theorem vault_covers_locked_sample :
    let actions := Sample.setup ++ [Sample.aliceRequests, Sample.bobRequests, Sample.fulfillBob]
    let w := run step (World.genesis (Sample.ledger Seeds.mintAuthority)) actions
    lockedAmount w.redemptionRequests Sample.onyc = 500000000 ∧
      500000000 ≤ vaultBalance w.ledger Sample.onyc := by
  intro actions w
  have hlocked : lockedAmount w.redemptionRequests Sample.onyc = 500000000 := by decide +kernel
  refine ⟨hlocked, ?_⟩
  rw [← hlocked]
  exact vault_covers_locked (Sample.exact_ledger _) actions (by decide +kernel) Sample.onyc

/-- Alice's redemption is paid with the USDC that Bob's open request has locked. -/
theorem vault_pays_locked :
    ¬ ∀ (l₀ : Ledger) (actions : List Action), l₀.Exact →
      (∀ a ∈ actions, withdrawsRedemptionVault a.instruction = false) → ∀ mint,
        lockedAmount (run step (World.genesis l₀) actions).redemptionRequests mint ≤
          vaultBalance (run step (World.genesis l₀) actions).ledger mint := by
  intro h
  have hle := h (Sample.ledger Sample.issuer)
    (Sample.setup ++ [Sample.aliceRequests, Sample.bobRequests, Sample.fulfillAlice])
    (Sample.exact_ledger _) (by decide) Sample.usdc
  revert hle
  decide +kernel

end OnreApp.Redemption
