import OnreApp.Offers.ScheduleRefinement
import OnreApp.Offers.TakeLedger
import OnreApp.Program.Step
import OnreApp.Redemption.RedemptionLedger

/-!
# What a successful instruction can have done

One inversion of the thirty-eight entry points, by the part of the world they write and by
who has to sign. Every invariant of the program is proved by cases on it.
-/
namespace OnreApp.Program

open Library.FiniteStore Library.Outcome Library.Run Offers Redemption Tokens Utils

/-- The edit of an offer's slots that an instruction is, if it is one. -/
def Instruction.vectorEdit : Instruction → Option VectorInstruction
  | .addOfferVector _ args => some (.add args)
  | .deleteOfferVector _ vectorStartTime => some (.delete vectorStartTime)
  | .deleteAllOfferVectors _ => some .deleteAll
  | _ => none

/-- An instruction edits an offer's slots, or sets its fee. -/
inductive OfferEdit (now : UInt64) (i : Instruction) (o : Offer) : Offer → Prop
  | vectors {e : VectorInstruction} {o' : Offer} (instr : i.vectorEdit = some e)
    (edited : editVectors ⟨now, e⟩ o = .ok o') : OfferEdit now i o o'
  | fee {ctx : UpdateOfferFee} {bps : UInt16} (instr : i = .updateOfferFee ctx bps)
    (le : bps.toNat ≤ maxBasisPoints) : OfferEdit now i o { o with feeBasisPoints := bps }

/-- `i` is one of the two takes, signed by `user`. -/
def Instruction.IsTake (i : Instruction) (user : Signer) : Prop :=
  (∃ ctx amount approval, i = .takeOffer ctx amount approval ∧ ctx.user = user) ∨
    ∃ ctx amount approval, i = .takeOfferPermissionless ctx amount approval ∧ ctx.user = user

inductive Effect (env : Env) (i : Instruction) (w : World) : World → Prop
  | view (unsigned : i.signer = none) : Effect env i w w
  | initialized {ctx : Initialize} {s : State} (instr : i = .initializeState ctx)
    (uninitialized : w.state = none) : Effect env i w (w.setState s)
  /-- The boss rewrites the state. -/
  | govern {s s' : State} (stored : w.state = some s) (boss : i.signer = some s.boss) :
    Effect env i w (w.setState s')
  | acceptBoss {ctx : AcceptBoss} {s : State} (instr : i = .acceptBoss ctx)
    (stored : w.state = some s) (proposed : ctx.newBoss.key = s.proposedBoss) :
    Effect env i w (w.setState { s with boss := ctx.newBoss, proposedBoss := Pubkey.default })
  /-- An admin sets the kill switch. -/
  | kill {ctx : SetKillSwitch} {s : State} (instr : i = .setKillSwitch ctx true)
    (stored : w.state = some s) (admin : ctx.signer.key ∈ s.admins.toList) :
    Effect env i w (w.setState { s with isKilled := true })
  | close {s : State} (stored : w.state = some s) (boss : i.signer = some s.boss) :
    Effect env i w { w with state := none }
  | namePermissionless {s : State} {a : PermissionlessAuthority} (stored : w.state = some s)
    (boss : i.signer = some s.boss) : Effect env i w { w with permissionlessAuthority := some a }
  | makeOffer {s : State} {k : OfferPda} {fee : UInt16} {needsApproval permissionless : Bool}
    {program : TokenProgram} {l : Ledger} (stored : w.state = some s)
    (boss : i.signer = some s.boss) (fresh : w.offers.lookup k = none)
    (vault : w.ledger.initIfNeeded (offerVault k.tokenInMint program) = .ok l)
    (fee_le : fee.toNat ≤ maxAllowedFeeBps) : Effect env i w
      { w with
        offers := w.offers.insert k
          (newOffer k.tokenInMint k.tokenOutMint fee needsApproval permissionless)
        ledger := l }
  | editOffer {s : State} {k : OfferPda} {o o' : Offer} (stored : w.state = some s)
    (boss : i.signer = some s.boss) (offer : w.offers.lookup k = some o)
    (edit : OfferEdit env.now i o o') : Effect env i w (w.setOffer k o')
  | deposit {s : State} {authority : Pubkey} {l : Ledger} (stored : w.state = some s)
    (boss : i.signer = some s.boss)
    (calls : Calls (TokenCpi.MovesWithin [s.boss.key] [authority]) w.ledger l) :
    Effect env i w (w.setLedger l)
  | withdraw {s : State} {authority : Pubkey} {l : Ledger} (stored : w.state = some s)
    (boss : i.signer = some s.boss)
    (vault : authority = Seeds.offerVaultAuthority ∨
      ∃ ctx amount, i = .redemptionVaultWithdraw ctx amount)
    (calls : Calls (TokenCpi.MovesWithin [authority] [s.boss.key]) w.ledger l) :
    Effect env i w (w.setLedger l)
  | mintTo {s : State} {mint : MintAccount} {a : Ata} {amount : UInt64} {l₁ l₂ : Ledger}
    (stored : w.state = some s) (boss : i.signer = some s.boss) (onyc : s.onycMint = mint.key)
    (loaded : w.ledger.mints.lookup mint.key = some mint.toMint) (wallet : a.wallet = s.boss.key)
    (account : w.ledger.initIfNeeded a = .ok l₁)
    (minted : mintTokens mint a Seeds.mintAuthority amount s.maxSupply l₁ = .ok l₂) :
    Effect env i w (w.setLedger l₂)
  | setMintAuthority {s : State} {mint new : Pubkey} (stored : w.state = some s)
    (boss : i.signer = some s.boss) : Effect env i w (w.setLedger (w.ledger.setAuthority mint new))
  | take {s : State} {user : Signer} {l : Ledger} (instr : i.IsTake user)
    (stored : w.state = some s)
    (ledger : TakenLedger user.key s w.ledger l) : Effect env i w (w.setLedger l)
  | makeRedemptionOffer {ctx : MakeRedemptionOffer} {fee : UInt16} {s : State} {l₁ l₂ : Ledger}
    (instr : i = .makeRedemptionOffer ctx fee) (stored : w.state = some s)
    (authorized : ctx.signer = s.boss ∨ ctx.signer.key = s.redemptionAdmin)
    (fresh : w.redemptionOffers.lookup ctx.redemptionOfferPda = none)
    (vaultIn : w.ledger.initIfNeeded (redemptionVault ctx.tokenInMint ctx.tokenInProgram) = .ok l₁)
    (vaultOut : l₁.initIfNeeded (redemptionVault ctx.tokenOutMint ctx.tokenOutProgram) = .ok l₂)
    (underlying : w.offers.lookup ctx.offerPda ≠ none) (fee_le : fee.toNat ≤ maxAllowedFeeBps) :
    Effect env i w ((w.setLedger l₂).setRedemptionOffer ctx.redemptionOfferPda
      ⟨ctx.offerPda, ctx.tokenInMint, ctx.tokenOutMint, 0, 0, fee, 0⟩)
  | updateRedemptionOfferFee {ctx : UpdateRedemptionOfferFee} {fee : UInt16} {s : State}
    {o : RedemptionOffer} (instr : i = .updateRedemptionOfferFee ctx fee)
    (stored : w.state = some s) (boss : i.signer = some s.boss)
    (offer : w.redemptionOffers.lookup ctx.redemptionOffer = some o)
    (fee_le : fee.toNat ≤ maxAllowedFeeBps) :
    Effect env i w (w.setRedemptionOffer ctx.redemptionOffer { o with feeBasisPoints := fee })
  | createRequest {ctx : CreateRedemptionRequest} {amount : UInt64} {s : State}
    {o : RedemptionOffer} {l : Ledger} {w' : World}
    (instr : i = .createRedemptionRequest ctx amount)
    (created : RequestCreated env ctx amount w w' s o l) : Effect env i w w'
  | cancelRequest {ctx : CancelRedemptionRequest} {s : State} {o : RedemptionOffer}
    {r : RedemptionRequest} {l₁ l₂ : Ledger} {w' : World} (instr : i = .cancelRedemptionRequest ctx)
    (cancelled : RequestCancelled env ctx w w' s o r l₁ l₂) : Effect env i w w'
  | fulfillRequest {ctx : FulfillRedemptionRequest} {s : State} {offer : Offer}
    {o : RedemptionOffer} {r : RedemptionRequest} {tokenIn tokenOut : MintAccount}
    {result : RedemptionProcessResult} {l₁ l₂ l₃ : Ledger} {w' : World}
    (instr : i = .fulfillRedemptionRequest ctx)
    (fulfilled : RequestFulfilled env ctx w w' s offer o r tokenIn tokenOut result l₁ l₂ l₃) :
    Effect env i w w'


/-! ## Each entry point -/

section EntryPoints

variable {env : Env} {i : Instruction} {w w' : World}

theorem bossUpdate_effect {ctx : BossAccounts} {update : State → Except Error State}
    (h : bossUpdate ctx update w = .ok w') (hi : i.signer = some ctx.boss) :
    Effect env i w w' := by
  obtain ⟨s, s', hs, hb, _, rfl⟩ := bossUpdate_eq_ok.mp h
  exact .govern hs (hb ▸ hi)

theorem view_eq {α : Type} {result : Except Error α} (h : view result w = .ok w') : w' = w := by
  simp only [view, bind_eq_ok, pure_eq_ok] at h
  obtain ⟨_, _, rfl⟩ := h
  rfl

theorem view_effect {α : Type} {result : Except Error α} (h : view result w = .ok w')
    (hi : i.signer = none) : Effect env i w w' := by
  rw [view_eq h]
  exact .view hi

theorem setKillSwitch_effect {ctx : SetKillSwitch} {enable : Bool}
    (h : setKillSwitch ctx enable w = .ok w') : Effect env (.setKillSwitch ctx enable) w w' := by
  obtain ⟨s, hs, hsigned, rfl⟩ := setKillSwitch_eq_ok.mp h
  rcases hsigned with hb | ⟨he, ha⟩
  · exact .govern hs (congrArg some hb.symm)
  · subst he
    exact .kill rfl hs ha

theorem makeOffer_effect {ctx : MakeOffer} {fee : UInt16} {needsApproval permissionless : Bool}
    (h : makeOffer ctx fee needsApproval permissionless w = .ok w') :
    Effect env (.makeOffer ctx fee needsApproval permissionless) w w' := by
  obtain ⟨s, l, hs, hb, hnew, hl, rfl⟩ := makeOffer_ok h
  exact .makeOffer hs (congrArg some hb.symm) hnew hl (makeOffer_fee_le h)

theorem vaultDeposit_effect {authority : Pubkey} {ctx : VaultAccounts} {amount : UInt64}
    (h : vaultDeposit authority env ctx amount w = .ok w') (hi : i.signer = some ctx.boss) :
    Effect env i w w' := by
  obtain ⟨s, l, l', hs, hb, hinit, htransfer, rfl⟩ := vaultDeposit_ok h
  have hcalls : Calls (TokenCpi.MovesWithin [s.boss.key] [authority]) w.ledger l' := by
    refine (Calls.of_initIfNeeded hinit).trans (transferTokens_calls htransfer ?_)
    rw [hb]
    exact ⟨List.mem_singleton_self _, List.mem_singleton_self _⟩
  exact .deposit hs (hb ▸ hi) hcalls

theorem vaultWithdraw_effect {authority : Pubkey} {ctx : VaultAccounts} {amount : UInt64}
    (h : vaultWithdraw authority env ctx amount w = .ok w') (hi : i.signer = some ctx.boss)
    (hvault : authority = Seeds.offerVaultAuthority ∨
      ∃ ctx amount, i = .redemptionVaultWithdraw ctx amount) : Effect env i w w' := by
  obtain ⟨s, l, l', hs, hb, hinit, htransfer, rfl⟩ := vaultWithdraw_ok h
  have hcalls : Calls (TokenCpi.MovesWithin [authority] [s.boss.key]) w.ledger l' := by
    refine (Calls.of_initIfNeeded hinit).trans (transferTokens_calls htransfer ?_)
    rw [hb]
    exact ⟨List.mem_singleton_self _, List.mem_singleton_self _⟩
  exact .withdraw hs (hb ▸ hi) hvault hcalls

end EntryPoints

theorem execute_effect {env : Env} {i : Instruction} {w w' : World}
    (h : execute env i w = .ok w') : Effect env i w w' := by
  cases i with
  | initializeState ctx =>
    obtain ⟨hnone, _, rfl⟩ := initializeState_ok h
    exact .initialized rfl hnone
  | initializePermissionlessAuthority ctx name =>
    obtain ⟨s, a, hs, hb, rfl⟩ := initializePermissionlessAuthority_ok h
    exact .namePermissionless hs (congrArg some hb.symm)
  | offerVaultDeposit ctx amount => exact vaultDeposit_effect h rfl
  | offerVaultWithdraw ctx amount => exact vaultWithdraw_effect h rfl (.inl rfl)
  | redemptionVaultDeposit ctx amount => exact vaultDeposit_effect h rfl
  | redemptionVaultWithdraw ctx amount =>
    exact vaultWithdraw_effect h rfl (.inr ⟨ctx, amount, rfl⟩)
  | makeOffer ctx fee needsApproval permissionless => exact makeOffer_effect h
  | addOfferVector ctx args =>
    obtain ⟨o, o', ho, he, rfl⟩ := addOfferVector_ok h
    obtain ⟨hk, _, _, s, hs, hb⟩ := BossOfferAccounts.load_eq_ok ho
    exact .editOffer hs (congrArg some hb.symm) hk (.vectors rfl he)
  | deleteOfferVector ctx t =>
    obtain ⟨o, o', ho, he, rfl⟩ := deleteOfferVector_ok h
    obtain ⟨hk, _, _, s, hs, hb⟩ := BossOfferAccounts.load_eq_ok ho
    exact .editOffer hs (congrArg some hb.symm) hk (.vectors rfl he)
  | deleteAllOfferVectors ctx =>
    obtain ⟨o, o', ho, he, rfl⟩ := deleteAllOfferVectors_ok h env.now
    obtain ⟨hk, _, _, s, hs, hb⟩ := BossOfferAccounts.load_eq_ok ho
    exact .editOffer hs (congrArg some hb.symm) hk (.vectors rfl he)
  | updateOfferFee ctx fee =>
    have hfee := updateOfferFee_fee_le h
    obtain ⟨o, ho, rfl⟩ := updateOfferFee_ok h
    obtain ⟨hk, _, _, s, hs, hb⟩ := BossOfferAccounts.load_eq_ok ho
    exact .editOffer hs (congrArg some hb.symm) hk (.fee rfl hfee)
  | takeOffer ctx amount approval =>
    obtain ⟨s, l, hs, hl, rfl⟩ := takeOffer_ledger h
    exact .take (.inl ⟨ctx, amount, approval, rfl, rfl⟩) hs hl
  | takeOfferPermissionless ctx amount approval =>
    obtain ⟨s, l, hs, hl, rfl⟩ := takeOfferPermissionless_ledger h
    exact .take (.inr ⟨ctx, amount, approval, rfl, rfl⟩) hs hl
  | acceptBoss ctx =>
    obtain ⟨s, hs, _, hk, rfl⟩ := acceptBoss_eq_ok.mp h
    exact .acceptBoss rfl hs hk
  | proposeBoss ctx _ | addAdmin ctx _ | removeAdmin ctx _ | clearAdmins ctx
  | setRedemptionAdmin ctx _ | addApprover ctx _ | removeApprover ctx _
  | configureMaxSupply ctx _ | setOnycMint ctx => exact bossUpdate_effect h rfl
  | transferMintAuthorityToProgram ctx =>
    obtain ⟨s, hs, hb, _, rfl⟩ := transferMintAuthorityToProgram_ok h
    exact .setMintAuthority hs (congrArg some hb.symm)
  | transferMintAuthorityToBoss ctx =>
    obtain ⟨s, hs, hb, _, _, rfl⟩ := transferMintAuthorityToBoss_ok h
    exact .setMintAuthority hs (congrArg some hb.symm)
  | setKillSwitch ctx enable => exact setKillSwitch_effect h
  | mintTo ctx amount =>
    obtain ⟨s, mint, l, l', hs, hb, ho, hm, hk, hl, hl', rfl⟩ := mintTo_ok h
    exact .mintTo hs (congrArg some hb.symm) (ho.trans hk.symm) (hk ▸ hm)
      (congrArg ExternalKey.key hb.symm) hl hl'
  | getNav ctx | getApy ctx | getNavAdjustment ctx | getTvl ctx | getCirculatingSupply ctx =>
    exact view_effect h rfl
  | closeState ctx =>
    obtain ⟨s, hs, hb, rfl⟩ := closeState_eq_ok.mp h
    exact .close hs (congrArg some hb.symm)
  | makeRedemptionOffer ctx fee =>
    obtain ⟨s, l₁, l₂, hs, hauth, hnew, hund, hfee, h₁, h₂, rfl⟩ := makeRedemptionOffer_ok h
    exact .makeRedemptionOffer rfl hs hauth hnew h₁ h₂ hund hfee
  | createRedemptionRequest ctx amount =>
    obtain ⟨s, o, l, hc⟩ := createRedemptionRequest_ok h
    exact .createRequest rfl hc
  | fulfillRedemptionRequest ctx =>
    obtain ⟨s, offer, o, r, mi, mo, result, l₁, l₂, l₃, hf⟩ := fulfillRedemptionRequest_ok h
    exact .fulfillRequest rfl hf
  | cancelRedemptionRequest ctx =>
    obtain ⟨s, o, r, l₁, l₂, hc⟩ := cancelRedemptionRequest_ok h
    exact .cancelRequest rfl hc
  | updateRedemptionOfferFee ctx fee =>
    obtain ⟨s, o, hs, hb, ho, hfee, rfl⟩ := updateRedemptionOfferFee_ok h
    exact .updateRedemptionOfferFee rfl hs (congrArg some hb.symm) ho hfee

/-! ## The ledger -/

/-- Whatever the instruction, the ledger changes by calls into the token programs. -/
theorem Effect.calls {env : Env} {i : Instruction} {w w' : World} (h : Effect env i w w') :
    Calls (fun _ => True) w.ledger w'.ledger := by
  cases h with
  | view | initialized | govern | acceptBoss | kill | close | namePermissionless | editOffer
  | updateRedemptionOfferFee => exact .refl _
  | makeOffer _ _ _ vault => exact .of_initIfNeeded vault
  | deposit _ _ calls | withdraw _ _ _ calls => exact calls.mono fun _ _ => trivial
  | mintTo _ _ _ _ _ account minted =>
    exact (Calls.of_initIfNeeded account).trans (mintTokens_calls minted trivial)
  | setMintAuthority => exact (Calls.refl _).setAuthority trivial
  | take _ _ ledger => exact ledger.calls.mono fun _ _ => trivial
  | makeRedemptionOffer _ _ _ _ vaultIn vaultOut =>
    exact (Calls.of_initIfNeeded vaultIn).trans (.of_initIfNeeded vaultOut)
  | createRequest _ created =>
    rw [created.result]
    exact created.calls.mono fun _ _ => trivial
  | cancelRequest _ cancelled =>
    rw [cancelled.result]
    exact cancelled.calls.mono fun _ _ => trivial
  | fulfillRequest _ fulfilled =>
    rw [fulfilled.outcome]
    exact fulfilled.calls.mono fun _ _ => trivial

theorem calls_run (w : World) (actions : List Action) :
    Calls (fun _ => True) w.ledger (run step w actions).ledger :=
  run_preserves (P := fun w₁ : World => Calls (fun _ => True) w.ledger w₁.ledger) (.refl _)
    (fun _ _ _ hw hs => hw.trans (execute_effect hs).calls) actions

/-! ## The offers -/

/-- An offer found after an instruction was there before, is new, or was edited. -/
theorem Effect.offer_cases {env : Env} {i : Instruction} {w w' : World} (h : Effect env i w w')
    {k : OfferPda} {o' : Offer} (ho : w'.offers.lookup k = some o') :
    w.offers.lookup k = some o' ∨
      (∃ fee needsApproval permissionless, fee.toNat ≤ maxAllowedFeeBps ∧
        o' = newOffer k.tokenInMint k.tokenOutMint fee needsApproval permissionless) ∨
      ∃ o, w.offers.lookup k = some o ∧ OfferEdit env.now i o o' := by
  cases h with
  | view | initialized | govern | acceptBoss | kill | close | namePermissionless | deposit
  | withdraw | mintTo | setMintAuthority | take | makeRedemptionOffer
  | updateRedemptionOfferFee => exact .inl ho
  | createRequest _ created =>
    rw [created.result] at ho
    exact .inl ho
  | cancelRequest _ cancelled =>
    rw [cancelled.result] at ho
    exact .inl ho
  | fulfillRequest _ fulfilled =>
    rw [fulfilled.outcome] at ho
    exact .inl ho
  | makeOffer _ _ _ _ fee_le =>
    rcases lookup_insert_cases ho with ⟨rfl, rfl⟩ | hold
    · exact .inr (.inl ⟨_, _, _, fee_le, rfl⟩)
    · exact .inl hold
  | editOffer _ _ offer edit =>
    rcases lookup_insert_cases ho with ⟨rfl, rfl⟩ | hold
    · exact .inr (.inr ⟨_, offer, edit⟩)
    · exact .inl hold

/-- What holds of every new offer and survives every edit holds of every offer a run
reaches. -/
theorem offers_invariant {Q : OfferPda → Offer → Prop} {C : World → Action → Prop} {w₀ : World}
    {actions : List Action} (hinit : ∀ k o, w₀.offers.lookup k = some o → Q k o)
    (hnew : ∀ {k : OfferPda} {fee needsApproval permissionless}, fee.toNat ≤ maxAllowedFeeBps →
      Q k (newOffer k.tokenInMint k.tokenOutMint fee needsApproval permissionless))
    (hfee : ∀ {a w w' ctx k o bps}, C w a → step a w = .ok w' →
      a.instruction = .updateOfferFee ctx bps → Q k o → Q k { o with feeBasisPoints := bps })
    (hedit : ∀ {a w w' e k o o'}, C w a → step a w = .ok w' → a.instruction.vectorEdit = some e →
      editVectors ⟨a.env.now, e⟩ o = .ok o' → Q k o → Q k o')
    (h : Along step C w₀ actions) :
    ∀ k o, (run step w₀ actions).offers.lookup k = some o → Q k o := by
  refine run_invariant (P := fun w : World => ∀ k o, w.offers.lookup k = some o → Q k o)
    (fun a w w' hw hc hs k o' ho => ?_) hinit h
  rcases (execute_effect hs).offer_cases ho with hold | ⟨_, _, _, hle, rfl⟩ | ⟨o, hold, hedited⟩
  · exact hw k o' hold
  · exact hnew hle
  · cases hedited with
    | vectors instr edited => exact hedit hc hs instr edited (hw k o hold)
    | fee instr le => exact hfee hc hs instr (hw k o hold)

/-! ## The redemption offers -/

/-- An instruction on a redemption offer leaves what it is for, and sets no fee above the
ceiling. -/
structure TermsEdit (o o' : RedemptionOffer) : Prop where
  offer : o'.offer = o.offer
  tokenIn : o'.tokenInMint = o.tokenInMint
  tokenOut : o'.tokenOutMint = o.tokenOutMint
  fee : o'.feeBasisPoints = o.feeBasisPoints ∨ o'.feeBasisPoints.toNat ≤ maxAllowedFeeBps

theorem TermsEdit.refl (o : RedemptionOffer) : TermsEdit o o := ⟨rfl, rfl, rfl, .inl rfl⟩

/-- A redemption offer found after an instruction is new, or an edit of what was there. -/
theorem Effect.redemptionOffer_cases {env : Env} {i : Instruction} {w w' : World}
    (h : Effect env i w w') {k : RedemptionOfferPda} {o' : RedemptionOffer}
    (ho : w'.redemptionOffers.lookup k = some o') :
    (∃ ctx fee, i = .makeRedemptionOffer ctx fee ∧ k = ctx.redemptionOfferPda ∧
      w.offers.lookup ctx.offerPda ≠ none ∧ fee.toNat ≤ maxAllowedFeeBps ∧
      o' = ⟨ctx.offerPda, ctx.tokenInMint, ctx.tokenOutMint, 0, 0, fee, 0⟩) ∨
    ∃ o, w.redemptionOffers.lookup k = some o ∧ TermsEdit o o' := by
  have edited : ∀ {k₀ o₀ o₁}, w.redemptionOffers.lookup k₀ = some o₀ →
      (w.redemptionOffers.insert k₀ o₁).lookup k = some o' → TermsEdit o₀ o₁ →
      ∃ o, w.redemptionOffers.lookup k = some o ∧ TermsEdit o o' := by
    intro k₀ o₀ o₁ hk₀ hlookup hedit
    rcases lookup_insert_cases hlookup with ⟨rfl, rfl⟩ | hold
    · exact ⟨o₀, hk₀, hedit⟩
    · exact ⟨o', hold, .refl o'⟩
  cases h with
  | view | initialized | govern | acceptBoss | kill | close | namePermissionless | makeOffer
  | editOffer | deposit | withdraw | mintTo | setMintAuthority | take =>
    exact .inr ⟨o', ho, .refl o'⟩
  | @makeRedemptionOffer ctx fee _ _ _ instr _ _ _ _ _ underlying fee_le =>
    rcases lookup_insert_cases ho with ⟨hk, ho'⟩ | hold
    · exact .inl ⟨ctx, fee, instr, hk, underlying, fee_le, ho'⟩
    · exact .inr ⟨o', hold, .refl o'⟩
  | updateRedemptionOfferFee _ _ _ offer fee_le =>
    exact .inr (edited offer ho ⟨rfl, rfl, rfl, .inr fee_le⟩)
  | createRequest _ created =>
    rw [created.result] at ho
    exact .inr (edited created.offer_stored ho ⟨rfl, rfl, rfl, .inl rfl⟩)
  | cancelRequest _ cancelled =>
    rw [cancelled.result] at ho
    exact .inr (edited cancelled.offer_stored ho ⟨rfl, rfl, rfl, .inl rfl⟩)
  | fulfillRequest _ fulfilled =>
    rw [fulfilled.outcome] at ho
    exact .inr (edited fulfilled.offer_stored ho ⟨rfl, rfl, rfl, .inl rfl⟩)

/-- What holds of every new redemption offer and survives every edit holds of every one a run
reaches. -/
theorem redemptionOffers_invariant {Q : RedemptionOfferPda → RedemptionOffer → Prop} {w₀ : World}
    (hinit : ∀ k o, w₀.redemptionOffers.lookup k = some o → Q k o)
    (hnew : ∀ {ctx : MakeRedemptionOffer} {fee : UInt16}, fee.toNat ≤ maxAllowedFeeBps →
      Q ctx.redemptionOfferPda ⟨ctx.offerPda, ctx.tokenInMint, ctx.tokenOutMint, 0, 0, fee, 0⟩)
    (hedit : ∀ {k o o'}, TermsEdit o o' → Q k o → Q k o') (actions : List Action) :
    ∀ k o, (run step w₀ actions).redemptionOffers.lookup k = some o → Q k o := by
  refine run_preserves (P := fun w : World => ∀ k o, w.redemptionOffers.lookup k = some o → Q k o)
    hinit (fun a w w' hw hs k o' ho => ?_) actions
  rcases (execute_effect hs).redemptionOffer_cases ho with
    ⟨ctx, fee, _, rfl, _, hle, rfl⟩ | ⟨o, hold, hedited⟩
  · exact hnew hle
  · exact hedit hedited (hw k o hold)

end OnreApp.Program
