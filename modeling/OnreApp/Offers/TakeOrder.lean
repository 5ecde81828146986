import OnreApp.Library.Reorder
import OnreApp.Offers.Takes

/-!
# Takes in any order

Takes of one offer compete for the vault, the supply and the cap, and pay into one account of
the boss. But no take gives another what it needs, and no take changes what another is checked
against: so takes that go through in one order go through in every order, to the same end.
-/
namespace OnreApp.Offers

open Library.Balance Library.Outcome Library.Reorder Program Tokens Utils

/-! ## What no take changes -/

/-- The worlds agree on everything that a take of the offer is checked against, balances and
supplies apart. Only a signer's account for `token_out` may be open in one of them alone. -/
structure SameTerms (k : OfferPda) (w w' : World) : Prop where
  state : w'.state = w.state
  offers : w'.offers = w.offers
  mints : ∀ m, (w'.ledger.mints.lookup m).map Mint.terms =
    (w.ledger.mints.lookup m).map Mint.terms
  accounts : ∀ a, (a.mint = k.tokenOutMint → ∀ user : Signer, a.wallet ≠ user.key) →
    (w'.ledger.HasAccount a ↔ w.ledger.HasAccount a)

namespace SameTerms

variable {k : OfferPda} {w w₁ w₂ : World}

theorem refl (w : World) : SameTerms k w w := ⟨rfl, rfl, fun _ => rfl, fun _ _ => Iff.rfl⟩

theorem symm (h : SameTerms k w w₁) : SameTerms k w₁ w :=
  ⟨h.state.symm, h.offers.symm, fun m => (h.mints m).symm, fun a ha => (h.accounts a ha).symm⟩

theorem trans (h : SameTerms k w w₁) (h' : SameTerms k w₁ w₂) : SameTerms k w w₂ :=
  ⟨h'.state.trans h.state, h'.offers.trans h.offers, fun m => (h'.mints m).trans (h.mints m),
    fun a ha => (h'.accounts a ha).trans (h.accounts a ha)⟩

variable (h : SameTerms k w w₁)
include h

theorem mintAuthority_eq (m : Pubkey) : w₁.ledger.mintAuthority m = w.ledger.mintAuthority m := by
  have hterms := congrArg (Option.map fun c => c.2.2.1) (h.mints m)
  rw [Option.map_map, Option.map_map] at hterms
  exact congrArg Option.join hterms

end SameTerms

/-- Whatever a take of the offer is checked against in one world, balances and supplies apart, is
there in the other. -/
structure KeepsTerms (k : OfferPda) (w w' : World) : Prop where
  state : w'.state = w.state
  offers : w'.offers = w.offers
  mints : ∀ m, (w'.ledger.mints.lookup m).map Mint.terms =
    (w.ledger.mints.lookup m).map Mint.terms
  accounts : ∀ a, (a.mint = k.tokenOutMint → ∀ user : Signer, a.wallet ≠ user.key) →
    w.ledger.HasAccount a → w'.ledger.HasAccount a

theorem SameTerms.keeps {k : OfferPda} {w w₁ : World} (h : SameTerms k w w₁) : KeepsTerms k w w₁ :=
  ⟨h.state, h.offers, h.mints, fun a ha => (h.accounts a ha).mpr⟩

namespace KeepsTerms

variable {k : OfferPda} {w w₁ : World} (h : KeepsTerms k w w₁)
include h

theorem tokenProgram_eq (m : Pubkey) : (w₁.ledger.mints.lookup m).map (·.tokenProgram) =
    (w.ledger.mints.lookup m).map (·.tokenProgram) := by
  have hterms := congrArg (Option.map Prod.fst) (h.mints m)
  rwa [Option.map_map, Option.map_map] at hterms

/-- A mint loaded in one world loads in the other, with another supply at most. -/
theorem mint {m : MintAccount} (hm : w.ledger.mints.lookup m.key = some m.toMint) :
    ∃ m' : MintAccount, w₁.ledger.mints.lookup m.key = some m'.toMint ∧ m'.key = m.key ∧
      m'.terms = m.terms := by
  have hterms := h.mints m.key
  rw [hm] at hterms
  obtain ⟨m', hm', he⟩ := Option.map_eq_some_iff.mp hterms
  exact ⟨⟨m', m.key⟩, hm', rfl, he⟩

theorem loadTokenAccounts {ctx : TakeOffer} {l : Ledger} (hk : ctx.offerPda = k)
    (hmints : k.tokenInMint ≠ k.tokenOutMint)
    (hl : ctx.loadTokenAccounts Seeds.offerVaultAuthority w.ledger = .ok l) :
    ∃ l', ctx.loadTokenAccounts Seeds.offerVaultAuthority w₁.ledger = .ok l' := by
  subst hk
  obtain ⟨hvi, hvo, hui, huo, hbi⟩ := TakeOffer.loadTokenAccounts_eq_ok.mp hl
  have hin : ∀ key, w.ledger.HasAccount (ctx.tokenInAccount key) →
      w₁.ledger.HasAccount (ctx.tokenInAccount key) :=
    fun key => h.accounts _ fun he => absurd he hmints
  have hvault := h.accounts (ctx.tokenOutAccount Seeds.offerVaultAuthority)
    fun _ user => (user.ne_authority (a := Seeds.offerVaultAuthority) (by decide)).symm
  have hopen := Ledger.initIfNeeded_ok_iff.mp ⟨l, huo⟩
  rw [← h.tokenProgram_eq] at hopen
  obtain ⟨l', hl'⟩ := Ledger.initIfNeeded_ok_iff.mpr hopen
  -- The boss's account was there before the user's was opened.
  have hboss : w.ledger.HasAccount (ctx.tokenInAccount ctx.boss) := by
    rcases Ledger.initIfNeeded_eq_ok.mp huo with ⟨_, rfl⟩ | ⟨hc, rfl⟩
    · exact hbi
    · rcases (Ledger.hasAccount_create hc).mp hbi with he | hold
      · exact absurd (congrArg Ata.mint he) hmints
      · exact hold
  have hcalls : Calls (fun _ => False) w₁.ledger l' := .of_initIfNeeded hl'
  exact ⟨l', TakeOffer.loadTokenAccounts_eq_ok.mpr ⟨hin _ hvi, hvault hvo, hin _ hui, hl',
    hcalls.hasAccount (hin _ hboss)⟩⟩

end KeepsTerms

theorem processOfferCore_congr {env : Env} {offer : Offer} {amount : UInt64}
    {tokenIn tokenIn' tokenOut tokenOut' : MintAccount} (hik : tokenIn'.key = tokenIn.key)
    (hi : tokenIn'.terms = tokenIn.terms) (hok : tokenOut'.key = tokenOut.key)
    (ho : tokenOut'.terms = tokenOut.terms) :
    processOfferCore env offer amount tokenIn' tokenOut' =
      processOfferCore env offer amount tokenIn tokenOut := by
  have hid : tokenIn'.decimals = tokenIn.decimals := congrArg (·.2.1) hi
  have hod : tokenOut'.decimals = tokenOut.decimals := congrArg (·.2.1) ho
  rw [processOfferCore, hik, hok, hid, hod]
  rfl

theorem hasTransferFee_congr {epoch : UInt64} {m m' : MintAccount} (h : m'.terms = m.terms) :
    hasTransferFee epoch m' = hasTransferFee epoch m := by
  have hc : m'.transferFeeConfig = m.transferFeeConfig := congrArg (·.2.2.2) h
  rw [hasTransferFee, hc]
  rfl

/-- What clears a take in one world clears it in the other. -/
theorem Take.Cleared.keep {t : Take} {w w₁ : World} {result : OfferProcessResult}
    (hc : t.Cleared w result) (h : KeepsTerms t.ctx.offerPda w w₁)
    (hmints : t.ctx.tokenInMint ≠ t.ctx.tokenOutMint) : t.Cleared w₁ result := by
  obtain ⟨offer, s, tokenIn, tokenOut, l, hc, hin, hout, hopen⟩ := hc
  obtain ⟨tokenIn', hi, hik, hit⟩ := h.mint (hc.tokenIn_key.symm ▸ hc.tokenIn)
  obtain ⟨tokenOut', ho, hok, hot⟩ := h.mint (hc.tokenOut_key.symm ▸ hc.tokenOut)
  obtain ⟨l', hl'⟩ := h.loadTokenAccounts rfl hmints hc.accounts
  refine ⟨offer, s, tokenIn', tokenOut', l', ?_, ?_, ?_, ?_⟩
  · constructor
    · rw [h.offers]
      exact hc.offer_stored
    · rw [h.state]
      exact hc.state_stored
    · exact hc.boss
    · exact hc.alive
    · rw [← hc.tokenIn_key]
      exact hi
    · exact hik.trans hc.tokenIn_key
    · exact hc.tokenIn_offer
    · rw [← hc.tokenOut_key]
      exact ho
    · exact hok.trans hc.tokenOut_key
    · exact hc.tokenOut_offer
    · exact hl'
    · exact hc.approved
    · rw [processOfferCore_congr hik hit hok hot]
      exact hc.priced
  · rw [hasTransferFee_congr hit]
    exact hin
  · rw [hasTransferFee_congr hot]
    exact hout
  · intro hroute
    obtain ⟨hallow, hpi, hpo⟩ := hopen hroute
    refine ⟨hallow, h.accounts _ (fun he => absurd he hmints) hpi,
      h.accounts _ (fun _ user => ?_) hpo⟩
    exact (user.ne_authority (a := Seeds.permissionlessAuthority) (by decide)).symm

/-- What clears a take is left by every take. -/
theorem Take.Cleared.congr {t : Take} {w w₁ : World} {result : OfferProcessResult}
    (hc : t.Cleared w result) (h : SameTerms t.ctx.offerPda w w₁)
    (hmints : t.ctx.tokenInMint ≠ t.ctx.tokenOutMint) : t.Cleared w₁ result :=
  hc.keep h.keeps hmints

theorem TakeFlow.sameTerms {ctx : TakeOffer} {amount : UInt64} {result : OfferProcessResult}
    {w w' : World} (h : TakeFlow ctx amount result w w') : SameTerms ctx.offerPda w w' := by
  constructor
  · rw [h.rest]
    rfl
  · rw [h.rest]
    rfl
  · exact h.terms
  · intro a ha
    rw [h.accounts a]
    constructor
    · intro hor
      rcases hor with rfl | hold
      · exact absurd rfl (ha rfl ctx.user)
      · exact hold
    · exact .inr

/-! ## Two takes -/

/-- The worlds agree on everything but the record of calls. -/
structure SameOutcome (w w' : World) : Prop where
  balances : w'.ledger.amount = w.ledger.amount
  supply : w'.ledger.supply = w.ledger.supply
  accounts : ∀ a, w'.ledger.HasAccount a ↔ w.ledger.HasAccount a
  mints : ∀ m, (w'.ledger.mints.lookup m).map Mint.terms =
    (w.ledger.mints.lookup m).map Mint.terms
  rest : w' = w.setLedger w'.ledger

namespace SameOutcome

variable {w w₁ w₂ : World}

theorem refl (w : World) : SameOutcome w w :=
  ⟨rfl, rfl, fun _ => Iff.rfl, fun _ => rfl, rfl⟩

theorem trans (h : SameOutcome w w₁) (h' : SameOutcome w₁ w₂) : SameOutcome w w₂ := by
  constructor
  · exact h'.balances.trans h.balances
  · exact h'.supply.trans h.supply
  · exact fun a => (h'.accounts a).trans (h.accounts a)
  · exact fun m => (h'.mints m).trans (h.mints m)
  · rw [h'.rest, h.rest]
    rfl

theorem sameTerms (h : SameOutcome w w₁) (k : OfferPda) : SameTerms k w w₁ := by
  constructor
  · rw [h.rest]
    rfl
  · rw [h.rest]
    rfl
  · exact h.mints
  · exact fun a _ => h.accounts a

end SameOutcome

section Amounts

variable {k : OfferPda} {ctx : TakeOffer} {amount : UInt64} {result : OfferProcessResult}
  {w w₁ : World}

theorem SameTerms.lost_eq (h : SameTerms k w w₁) :
    ctx.lost amount result w₁.ledger = ctx.lost amount result w.ledger := by
  rw [TakeOffer.lost, TakeOffer.vaultPays, h.mintAuthority_eq]
  rfl

theorem SameTerms.gained_eq (h : SameTerms k w w₁) :
    ctx.gained amount result w₁.ledger = ctx.gained amount result w.ledger := by
  rw [TakeOffer.gained, TakeOffer.bossReceives, h.mintAuthority_eq]
  rfl

theorem SameTerms.burned_eq (h : SameTerms k w w₁) :
    ctx.burned result w₁.ledger = ctx.burned result w.ledger := by
  rw [TakeOffer.burned, h.mintAuthority_eq]
  rfl

theorem SameTerms.minted_eq (h : SameTerms k w w₁) :
    ctx.minted result w₁.ledger = ctx.minted result w.ledger := by
  rw [TakeOffer.minted, h.mintAuthority_eq]
  rfl

/-- An account that a take does not pay into only loses. -/
theorem TakeFlow.amount_add (h : TakeFlow ctx amount result w w₁) {a : Ata}
    (ha : ctx.gained amount result w.ledger a = 0) :
    w₁.ledger.amount a + ctx.lost amount result w.ledger a = w.ledger.amount a := by
  have hat := h.balances.apply a
  rw [ha] at hat
  exact hat

theorem TakeFlow.supply_tokenOut (h : TakeFlow ctx amount result w w₁)
    (hmints : ctx.tokenInMint ≠ ctx.tokenOutMint) : w₁.ledger.supply ctx.tokenOutMint =
      w.ledger.supply ctx.tokenOutMint + ctx.minted result w.ledger :=
  h.supply.apply_gained hmints.symm

theorem Take.Cleared.ne_boss {t : Take} (h : t.Cleared w result) {user : Signer}
    (hu : ∀ s, w.state = some s → user ≠ s.boss) : user.key ≠ t.ctx.boss := by
  obtain ⟨_, s, _, _, _, hc, _⟩ := h
  exact fun he => hu s hc.state_stored (ExternalKey.ext (he.trans hc.boss.symm))

end Amounts

/-- Takes of one offer, which trades two mints, by users other than the boss. -/
structure TakesOf (k : OfferPda) (state : Option State) (t : Take) : Prop where
  offer : t.ctx.offerPda = k
  user : ∀ s, state = some s → t.ctx.user ≠ s.boss

/-- Two takes in either order move the same. -/
theorem TakeFlow.swap {i j : Take} {r r' : OfferProcessResult} {w w₁ w₂ w₃ w₄ : World}
    (hflow₁ : TakeFlow i.ctx i.amount r w w₁) (hflow₂ : TakeFlow j.ctx j.amount r' w₁ w₂)
    (hflow₃ : TakeFlow j.ctx j.amount r' w w₃) (hflow₄ : TakeFlow i.ctx i.amount r w₃ w₄) :
    SameOutcome w₂ w₄ := by
  have hb := hflow₂.balances
  have hb' := hflow₄.balances
  have hs := hflow₂.supply
  have hs' := hflow₄.supply
  rw [hflow₁.sameTerms.lost_eq, hflow₁.sameTerms.gained_eq] at hb
  rw [hflow₃.sameTerms.lost_eq, hflow₃.sameTerms.gained_eq] at hb'
  rw [hflow₁.sameTerms.burned_eq, hflow₁.sameTerms.minted_eq] at hs
  rw [hflow₃.sameTerms.burned_eq, hflow₃.sameTerms.minted_eq] at hs'
  constructor
  · exact ((hflow₃.balances.trans hb').congr (add_comm _ _) (add_comm _ _)).unique
      (hflow₁.balances.trans hb)
  · exact ((hflow₃.supply.trans hs').congr (add_comm _ _) (add_comm _ _)).unique
      (hflow₁.supply.trans hs)
  · intro a
    rw [hflow₄.accounts, hflow₃.accounts, hflow₂.accounts, hflow₁.accounts, or_left_comm]
  · intro m
    rw [hflow₄.terms, hflow₃.terms, hflow₂.terms, hflow₁.terms]
  · rw [hflow₄.rest, hflow₃.rest, hflow₂.rest, hflow₁.rest]
    rfl

theorem Take.le_lost_userIn {t : Take} {r : OfferProcessResult} {l : Ledger} :
    t.amount.toNat ≤ t.ctx.lost t.amount r l t.userIn := by
  unfold Take.userIn
  rw [TakeOffer.lost_apply, if_pos rfl]
  exact Nat.le_add_right _ _

theorem Take.le_lost_vaultOut {t : Take} {r : OfferProcessResult} {l : Ledger}
    (hm : l.mintAuthority t.ctx.tokenOutMint ≠ some Seeds.mintAuthority) :
    r.tokenOutAmount.toNat ≤ t.ctx.lost t.amount r l t.vaultOut := by
  unfold Take.vaultOut
  rw [TakeOffer.lost_apply, TakeOffer.vaultPays, if_neg hm, if_pos rfl]
  exact Nat.le_add_left _ _

namespace TakesOf

variable {k : OfferPda} {state : Option State} {t : Take} (h : TakesOf k state t)
include h

theorem tokenIn : t.ctx.tokenInMint = k.tokenInMint := congrArg OfferPda.tokenInMint h.offer

theorem tokenOut : t.ctx.tokenOutMint = k.tokenOutMint := congrArg OfferPda.tokenOutMint h.offer

theorem mints_ne (hmints : k.tokenInMint ≠ k.tokenOutMint) :
    t.ctx.tokenInMint ≠ t.ctx.tokenOutMint := by
  rw [h.tokenIn, h.tokenOut]
  exact hmints

end TakesOf

section Pair

variable {k : OfferPda} (hmints : k.tokenInMint ≠ k.tokenOutMint) {i j : Take}
  {w w₁ w₂ w₃ : World} (hi : TakesOf k w.state i) (hj : TakesOf k w.state j)
  {r r' : OfferProcessResult}
include hmints hi hj

/-- No take pays into the account that another one pays from. -/
theorem Take.Cleared.gained_userIn (hc : i.Cleared w r) :
    i.ctx.gained i.amount r w.ledger j.userIn = 0 := by
  have hne := hc.ne_boss hj.user
  have hin : j.ctx.tokenInMint ≠ i.ctx.tokenOutMint := by
    rw [hj.tokenIn, hi.tokenOut]
    exact hmints
  rw [TakeOffer.gained_apply, if_neg fun he => hne (congrArg Ata.wallet he),
    if_neg fun he => hin (congrArg Ata.mint he)]

/-- Nor into the vault's. -/
theorem TakesOf.gained_vaultOut : i.ctx.gained i.amount r w.ledger j.vaultOut = 0 := by
  have hout : j.ctx.tokenOutMint ≠ i.ctx.tokenInMint := by
    rw [hj.tokenOut, hi.tokenIn]
    exact hmints.symm
  have hne : Seeds.offerVaultAuthority ≠ i.ctx.user.key :=
    (i.ctx.user.ne_authority (by decide)).symm
  rw [TakeOffer.gained_apply, if_neg fun he => hout (congrArg Ata.mint he),
    if_neg fun he => hne (congrArg Ata.wallet he)]

/-- What can be afforded after a take could be afforded before it. -/
theorem Take.Affordable.before (hc : i.Cleared w r) (hflow : TakeFlow i.ctx i.amount r w w₁)
    (h : j.Affordable w₁ r') : j.Affordable w r' := by
  have hin := hflow.amount_add (hc.gained_userIn hmints hi hj)
  have hvault := hflow.amount_add (hi.gained_vaultOut hmints hj (r := r))
  have hsupply := hflow.supply_tokenOut (hi.mints_ne hmints)
  have hauth := hflow.sameTerms.mintAuthority_eq j.ctx.tokenOutMint
  rw [hi.tokenOut, ← hj.tokenOut] at hsupply
  constructor
  · exact h.held.trans (by omega)
  · intro hm
    obtain ⟨hcap, hlt⟩ := h.mint (hauth.trans hm)
    rw [hflow.sameTerms.state] at hcap
    constructor
    · intro s hs hmax
      have hle := hcap s hs hmax
      omega
    · omega
  · intro hm
    have hle := h.vault fun he => hm (hauth.symm.trans he)
    omega

/-- If a second take can be afforded after the first, the first can be after the second. -/
theorem Take.Affordable.after (hc : i.Cleared w r) (hc' : j.Cleared w r')
    (hflow : TakeFlow i.ctx i.amount r w w₁)
    (hflow₂ : TakeFlow j.ctx j.amount r' w₁ w₂) (h' : j.Affordable w₁ r')
    (hflow₃ : TakeFlow j.ctx j.amount r' w w₃) : i.Affordable w₃ r := by
  have hsame := hflow.sameTerms
  -- At an account that neither pays into, the other order leaves room for the first take.
  have hroom : ∀ a, i.ctx.gained i.amount r w.ledger a = 0 →
      j.ctx.gained j.amount r' w.ledger a = 0 →
      i.ctx.lost i.amount r w.ledger a ≤ w₃.ledger.amount a := by
    intro a hia hja
    have h₁ := hflow.amount_add hia
    have h₂ := hflow₂.amount_add (by rw [hsame.gained_eq]; exact hja)
    have h₃ := hflow₃.amount_add hja
    rw [hsame.lost_eq] at h₂
    omega
  have hsupply := hflow.supply_tokenOut (hi.mints_ne hmints)
  have hsupply₃ := hflow₃.supply_tokenOut (hj.mints_ne hmints)
  have hauth := hflow₃.sameTerms.mintAuthority_eq i.ctx.tokenOutMint
  constructor
  · have hle := hroom i.userIn (hc.gained_userIn hmints hi hi) (hc'.gained_userIn hmints hj hi)
    exact Take.le_lost_userIn.trans hle
  · intro hm
    have hm : w.ledger.mintAuthority i.ctx.tokenOutMint = some Seeds.mintAuthority :=
      hauth.symm.trans hm
    have hmj : w.ledger.mintAuthority j.ctx.tokenOutMint = some Seeds.mintAuthority := by
      rw [hj.tokenOut, ← hi.tokenOut]
      exact hm
    obtain ⟨hcap, hlt⟩ := h'.mint ((hsame.mintAuthority_eq _).trans hmj)
    rw [TakeOffer.minted, if_pos hm, hi.tokenOut, ← hj.tokenOut] at hsupply
    rw [TakeOffer.minted, if_pos hmj] at hsupply₃
    rw [hi.tokenOut, ← hj.tokenOut, hflow₃.sameTerms.state]
    rw [hsame.state] at hcap
    constructor
    · intro s hs hmax
      have hle := hcap s hs hmax
      omega
    · omega
  · intro hm
    have hm : w.ledger.mintAuthority i.ctx.tokenOutMint ≠ some Seeds.mintAuthority :=
      fun he => hm (hauth.trans he)
    have hle := hroom i.vaultOut (hi.gained_vaultOut hmints hi) (hj.gained_vaultOut hmints hi)
    exact (Take.le_lost_vaultOut hm).trans hle

end Pair

/-- A take that can be afforded still can after what changes neither balances nor supplies. -/
theorem Take.Affordable.congr {t : Take} {w w₁ : World} {r : OfferProcessResult}
    (h : t.Affordable w r) (hsame : SameOutcome w w₁) : t.Affordable w₁ r := by
  have hterms := hsame.sameTerms t.ctx.offerPda
  constructor
  · rw [hsame.balances]
    exact h.held
  · rw [hterms.mintAuthority_eq, hterms.state, hsame.supply]
    exact h.mint
  · rw [hterms.mintAuthority_eq, hsame.balances]
    exact h.vault

/-- A take from the same balances ends in the same balances. -/
theorem TakeFlow.congr {t : Take} {w w' w₁ w₁' : World} {r : OfferProcessResult}
    (h : TakeFlow t.ctx t.amount r w w') (hsame : SameOutcome w w₁)
    (h₁ : TakeFlow t.ctx t.amount r w₁ w₁') : SameOutcome w' w₁' := by
  have hterms := hsame.sameTerms t.ctx.offerPda
  have hb := h₁.balances
  have hs := h₁.supply
  rw [hterms.lost_eq, hterms.gained_eq, hsame.balances] at hb
  rw [hterms.burned_eq, hterms.minted_eq, hsame.supply] at hs
  constructor
  · exact hb.unique h.balances
  · exact hs.unique h.supply
  · intro a
    rw [h₁.accounts, h.accounts, hsame.accounts]
  · intro m
    rw [h₁.terms, h.terms, hsame.mints]
  · rw [h₁.rest, h.rest, hsame.rest]
    rfl

/-- No take writes the offer or the state. -/
theorem Take.execute_keeps {t : Take} {w w' : World} (h : t.execute w = .ok w') :
    w'.offers = w.offers ∧ w'.state = w.state := by
  obtain ⟨env, ctx, amount, approval, route⟩ := t
  cases route with
  | direct =>
    obtain ⟨_, _, _, _, rfl⟩ := takeOffer_ledger h
    exact ⟨rfl, rfl⟩
  | permissionless =>
    obtain ⟨_, _, _, _, rfl⟩ := takeOfferPermissionless_ledger h
    exact ⟨rfl, rfl⟩

theorem takes_commuting {k : OfferPda} (hmints : k.tokenInMint ≠ k.tokenOutMint)
    (state : Option State) :
    Commuting Take.execute (TakesOf k state) (fun w : World => w.state = state) SameOutcome := by
  constructor
  · exact SameOutcome.refl
  · exact SameOutcome.trans
  · intro t w w' hw h
    exact (Take.execute_keeps h).2.trans hw
  · intro t w w₁ w' ht hw hsame h
    have hterms := hsame.sameTerms t.ctx.offerPda
    obtain ⟨r, hc, hafford, hflow⟩ := Take.execute_spec (ht.mints_ne hmints) h
    obtain ⟨w₁', h₁, hflow₁⟩ := Take.execute_of_cleared (ht.mints_ne hmints)
      (hc.congr hterms (ht.mints_ne hmints))
      (hafford.congr hsame)
    exact ⟨w₁', h₁, hflow.congr hsame hflow₁⟩
  · intro i j w w₁ w₂ hi hj hw h₁ h₂
    subst hw
    have hni := hi.mints_ne hmints
    have hnj := hj.mints_ne hmints
    obtain ⟨r, hc, _, hflow₁⟩ := Take.execute_spec hni h₁
    have hsame₁ : SameTerms k w w₁ := hi.offer ▸ hflow₁.sameTerms
    obtain ⟨r', hc₁, hafford, hflow₂⟩ := Take.execute_spec hnj h₂
    -- The second take alone.
    have hc' : j.Cleared w r' := hc₁.congr (hj.offer.symm ▸ hsame₁.symm) hnj
    obtain ⟨w₃, h₃, hflow₃⟩ :=
      Take.execute_of_cleared hnj hc' (hafford.before hmints hi hj hc hflow₁)
    -- And the first one after it.
    have hsame₃ : SameTerms k w w₃ := hj.offer ▸ hflow₃.sameTerms
    obtain ⟨w₄, h₄, hflow₄⟩ := Take.execute_of_cleared hni
      (hc.congr (hi.offer.symm ▸ hsame₃) hni)
      (Take.Affordable.after hmints hi hj hc hc' hflow₁ hflow₂ hafford hflow₃)
    exact ⟨w₃, w₄, h₃, h₄, hflow₁.swap hflow₂ hflow₃ hflow₄⟩

/-! ## Any number of takes -/

/-- Takes one after the other, with what each of them adds to its user's `token_out`. -/
def takeAll : List Take → World → Except Error (List ℕ × World)
  | [], w => pure ([], w)
  | t :: takes, w => do
    let next ← t.execute w
    let rest ← takeAll takes next
    pure ((next.ledger.amount t.userOut - w.ledger.amount t.userOut) :: rest.1, rest.2)

/-- What a take is worth in a world. -/
def Take.out (w : World) (t : Take) : ℕ :=
  match takeQuote t.env t.ctx t.amount w with
  | .ok result => result.tokenOutAmount.toNat
  | .error _ => 0

theorem Take.Cleared.out_eq {t : Take} {w : World} {r : OfferProcessResult} (h : t.Cleared w r) :
    t.out w = r.tokenOutAmount.toNat := by
  obtain ⟨_, _, _, _, _, hc, _⟩ := h
  rw [Take.out, hc.quote]

/-- A take pays its user what it is worth. -/
theorem TakeFlow.received {t : Take} {w w' : World} {r : OfferProcessResult}
    (h : TakeFlow t.ctx t.amount r w w') (hmints : t.ctx.tokenInMint ≠ t.ctx.tokenOutMint) :
    w'.ledger.amount t.userOut - w.ledger.amount t.userOut = r.tokenOutAmount.toNat := by
  unfold Take.userOut
  rw [h.userOut hmints]
  exact Nat.add_sub_cancel_left _ _

/-- All takes succeed exactly if each of them does in its turn, and each pays what it was worth
before the first one. -/
theorem takeAll_eq_ok {k : OfferPda} (hmints : k.tokenInMint ≠ k.tokenOutMint) {w₀ : World}
    {takes : List Take} (hof : ∀ t ∈ takes, TakesOf k w₀.state t) {w w' : World} {outs : List ℕ}
    (hsame : SameTerms k w₀ w) : takeAll takes w = .ok (outs, w') ↔
      runAll Take.execute takes w = .ok w' ∧ outs = takes.map (Take.out w₀) := by
  induction takes generalizing w outs with
  | nil =>
    simp only [takeAll, pure_eq_ok, runAll_nil_eq_ok, List.map_nil, Prod.mk.injEq]
    exact ⟨fun h => ⟨h.2, h.1.symm⟩, fun h => ⟨h.2.symm, h.1⟩⟩
  | cons t takes ih =>
    obtain ⟨ht, htakes⟩ := List.forall_mem_cons.mp hof
    have hne := ht.mints_ne hmints
    -- One step: what the take pays, and that the rest finds the same terms.
    have hstep : ∀ {w₁}, t.execute w = .ok w₁ → SameTerms k w₀ w₁ ∧
        w₁.ledger.amount t.userOut - w.ledger.amount t.userOut = t.out w₀ := by
      intro w₁ h₁
      obtain ⟨r, hc, _, hflow⟩ := Take.execute_spec hne h₁
      refine ⟨hsame.trans (ht.offer ▸ hflow.sameTerms), ?_⟩
      rw [hflow.received hne, (hc.congr (ht.offer.symm ▸ hsame.symm) hne).out_eq]
    simp only [takeAll, bind_eq_ok, pure_eq_ok, runAll_cons_eq_ok, List.map_cons, Prod.mk.injEq]
    constructor
    · intro h
      obtain ⟨w₁, h₁, rest, hrest, rfl, rfl⟩ := h
      obtain ⟨hsame₁, hout⟩ := hstep h₁
      obtain ⟨hrun, houts⟩ := (ih htakes hsame₁).mp hrest
      exact ⟨⟨w₁, h₁, hrun⟩, by rw [hout, houts]⟩
    · intro h
      obtain ⟨⟨w₁, h₁, hrun⟩, rfl⟩ := h
      obtain ⟨hsame₁, hout⟩ := hstep h₁
      exact ⟨w₁, h₁, (takes.map (Take.out w₀), w'), (ih htakes hsame₁).mpr ⟨hrun, rfl⟩,
        by rw [hout], rfl⟩

/-- Takes of one offer by users other than the boss, each with its own transaction, approval and
clock: if they go through in one order, they do in every other, each take pays the same, and all
balances, supplies and accounts of the program end the same. -/
theorem takes_order_independent :
    (∀ (t : Take) (w w' : World), t.execute w = .ok w' →
      w'.offers = w.offers ∧ w'.state = w.state) ∧
    ∀ (k : OfferPda) (takes takes' : List Take) (w w' : World) (outs : List ℕ),
      k.tokenInMint ≠ k.tokenOutMint → (∀ t ∈ takes, TakesOf k w.state t) →
      takeAll takes w = .ok (outs, w') → takes.Perm takes' →
        ∃ out : Take → ℕ, outs = takes.map out ∧
          ∃ w'', takeAll takes' w = .ok (takes'.map out, w'') ∧ SameOutcome w' w'' := by
  constructor
  · intro t w w' h
    exact Take.execute_keeps h
  · intro k takes takes' w w' outs hmints hof h hperm
    obtain ⟨hrun, houts⟩ := (takeAll_eq_ok hmints hof (.refl w)).mp h
    obtain ⟨w'', hrun', hsame⟩ := (takes_commuting hmints w.state).runAll_perm hperm hof rfl hrun
    have hof' : ∀ t ∈ takes', TakesOf k w.state t := fun t ht => hof t (hperm.mem_iff.mpr ht)
    exact ⟨Take.out w, houts, w'', (takeAll_eq_ok hmints hof' (.refl w)).mpr ⟨hrun', rfl⟩, hsame⟩

end OnreApp.Offers

namespace OnreApp.Program.Sample

open Offers

/-- Alice takes on the direct route, Bob on the permissionless one. -/
def aliceTake : Take := ⟨env 1000, aliceTakes.toTakeOffer, 1000, none, .direct⟩

def bobTake : Take :=
  ⟨env 1000, { aliceTakes.toTakeOffer with user := bob }, 2000, none, .permissionless⟩

end OnreApp.Program.Sample

namespace OnreApp.Offers

open Library.Outcome Program

/-- Bob's take may come first. -/
theorem takes_order_independent_sample :
    let w := Library.Run.run step (World.genesis (Sample.ledger Sample.issuer))
      (Sample.market false)
    ∃ outs outs' w' w'', takeAll [Sample.aliceTake, Sample.bobTake] w = .ok (outs, w') ∧
      takeAll [Sample.bobTake, Sample.aliceTake] w = .ok (outs', w'') ∧ SameOutcome w' w'' := by
  intro w
  obtain ⟨⟨outs, w'⟩, h⟩ : ∃ p, takeAll [Sample.aliceTake, Sample.bobTake] w = .ok p :=
    exists_ok_of_toBool (by decide +kernel)
  have hboss : w.state.map State.boss = some Sample.boss := by decide +kernel
  have hof : ∀ t ∈ [Sample.aliceTake, Sample.bobTake],
      TakesOf ⟨Sample.usdc, Sample.onyc⟩ w.state t := by
    refine List.forall_mem_cons.mpr ⟨⟨rfl, Sample.ne_boss hboss (by decide)⟩,
      List.forall_mem_cons.mpr ⟨⟨rfl, Sample.ne_boss hboss (by decide)⟩, nofun⟩⟩
  obtain ⟨out, _, w'', h', hsame⟩ := takes_order_independent.2 _ _ _ _ _ _ (by decide) hof h
    (.swap Sample.bobTake Sample.aliceTake [])
  exact ⟨outs, _, w', w'', h, h', hsame⟩

end OnreApp.Offers
