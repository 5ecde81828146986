import OnreApp.Offers.Exchange
import OnreApp.Program.Genesis
import OnreApp.Program.Quotes
import OnreApp.Tokens.Conservation

/-!
# The ledger after a take

Everything a direct take moves: what the user, the boss and the offer vault lose and gain, what
is burned and minted, and that nothing else changes.
-/
namespace OnreApp.Offers

open Library.Balance Library.Outcome Program Tokens Utils

namespace TakeOffer

variable (ctx : TakeOffer) (amount : UInt64) (result : OfferProcessResult) (l : Ledger)

/-- What of the payment is burned: all but the fee, where the program can mint `token_in`. -/
def burned : ℕ :=
  if l.mintAuthority ctx.tokenInMint = some Seeds.mintAuthority then
    result.tokenInNetAmount.toNat
  else 0

/-- What of the payment the boss receives: the fee there, all of it elsewhere. -/
def bossReceives : ℕ :=
  if l.mintAuthority ctx.tokenInMint = some Seeds.mintAuthority then
    result.tokenInFeeAmount.toNat
  else amount.toNat

/-- What of `token_out` is minted: all of it, where the program can. -/
def minted : ℕ :=
  if l.mintAuthority ctx.tokenOutMint = some Seeds.mintAuthority then
    result.tokenOutAmount.toNat
  else 0

/-- What of `token_out` the offer vault pays: all of it elsewhere. -/
def vaultPays : ℕ :=
  if l.mintAuthority ctx.tokenOutMint = some Seeds.mintAuthority then 0
  else result.tokenOutAmount.toNat

/-- What each account loses in a take. -/
def lost : Ata → ℕ :=
  Pi.single (ctx.tokenInAccount ctx.user.key) amount.toNat +
    Pi.single (ctx.tokenOutAccount Seeds.offerVaultAuthority) (ctx.vaultPays result l)

/-- What each account gains in a take. -/
def gained : Ata → ℕ :=
  Pi.single (ctx.tokenInAccount ctx.boss) (ctx.bossReceives amount result l) +
    Pi.single (ctx.tokenOutAccount ctx.user.key) result.tokenOutAmount.toNat

theorem lost_apply (a : Ata) : ctx.lost amount result l a =
    (if a = ctx.tokenInAccount ctx.user.key then amount.toNat else 0) +
      if a = ctx.tokenOutAccount Seeds.offerVaultAuthority then ctx.vaultPays result l else 0 := by
  rw [lost, Pi.add_apply, Pi.single_apply, Pi.single_apply]

theorem gained_apply (a : Ata) : ctx.gained amount result l a =
    (if a = ctx.tokenInAccount ctx.boss then ctx.bossReceives amount result l else 0) +
      if a = ctx.tokenOutAccount ctx.user.key then result.tokenOutAmount.toNat else 0 := by
  rw [gained, Pi.add_apply, Pi.single_apply, Pi.single_apply]

end TakeOffer

/-- What a take does to all balances and supplies at once, and what it leaves. -/
structure TakeFlow (ctx : TakeOffer) (amount : UInt64) (result : OfferProcessResult)
    (w w' : World) : Prop where
  total : result.tokenInNetAmount.toNat + result.tokenInFeeAmount.toNat = amount.toNat
  balances : Flow (ctx.lost amount result w.ledger) (ctx.gained amount result w.ledger)
    w.ledger.amount w'.ledger.amount
  supply : Flow (Pi.single ctx.tokenInMint (ctx.burned result w.ledger))
    (Pi.single ctx.tokenOutMint (ctx.minted result w.ledger)) w.ledger.supply w'.ledger.supply
  accounts : ∀ a, w'.ledger.HasAccount a ↔
    a = ctx.tokenOutAccount ctx.user.key ∨ w.ledger.HasAccount a
  terms : ∀ k, (w'.ledger.mints.lookup k).map Mint.terms =
    (w.ledger.mints.lookup k).map Mint.terms
  rest : w' = w.setLedger w'.ledger

section Checks

variable {env : Env} {w : World} {ctx : TakeOffer} {amount : UInt64}
  {approval : Option ApprovalMessage} {offer : Offer} {s : State} {tokenIn tokenOut : MintAccount}
  {l l' : Ledger} {result : OfferProcessResult}

namespace TakeChecks

variable (h : TakeChecks env ctx amount approval w offer s tokenIn tokenOut l result)
include h

/-- The accounts open before the exchange are those of before the take, and the user's. -/
theorem hasAccount_iff (a : Ata) :
    l.HasAccount a ↔ a = ctx.tokenOutAccount ctx.user.key ∨ w.ledger.HasAccount a :=
  Ledger.hasAccount_initIfNeeded (TakeOffer.loadTokenAccounts_eq_ok.mp h.accounts).2.2.2.1 a

theorem burned_eq : (ctx.execParams ctx.user.key s tokenIn tokenOut result).burned =
    ctx.burned result w.ledger :=
  if_congr (programControlsMint_iff h.tokenIn) rfl rfl

theorem kept_eq : (ctx.execParams ctx.user.key s tokenIn tokenOut result).kept =
    ctx.bossReceives amount result w.ledger :=
  if_congr (programControlsMint_iff h.tokenIn) rfl (processOfferCore_total h.priced)

theorem mintedOut_eq : mintedOut tokenOut Seeds.mintAuthority result.tokenOutAmount =
    ctx.minted result w.ledger :=
  if_congr (programControlsMint_iff h.tokenOut) rfl rfl

theorem drawnFromSource_eq : drawnFromSource tokenOut Seeds.mintAuthority result.tokenOutAmount =
    ctx.vaultPays result w.ledger :=
  if_congr (programControlsMint_iff h.tokenOut) rfl rfl

/-- The exchange of a take that passed its checks. -/
theorem takeFlow
    (hexec : executeTokenOperations env.epoch
      (ctx.execParams ctx.user.key s tokenIn tokenOut result) l = .ok l') :
    TakeFlow ctx amount result w (w.setLedger l') := by
  have hself : Calls (TokenCpi.MovesWithin [] []) l l := .refl l
  obtain ⟨hbalances, hsupply⟩ := h.exchange_flow hself hexec
  rw [h.kept_eq, h.drawnFromSource_eq, funext h.amount_eq] at hbalances
  rw [h.burned_eq, h.mintedOut_eq, h.tokenOut_key, h.supply_eq, add_zero, Pi.single_zero,
    zero_add] at hsupply
  constructor
  · exact processOfferCore_total h.priced
  · exact hbalances
  · exact hsupply
  · intro a
    exact (executeTokenOperations_hasAccount hexec).trans (h.hasAccount_iff a)
  · have hcalls := (h.calls : Calls _ w.ledger l).trans (executeTokenOperations_calls hexec)
    exact hcalls.terms_eq_of_within
  · rfl

end TakeChecks

end Checks

theorem takeOffer_flow {env : Env} {ctx : TakeOffer} {amount : UInt64}
    {approval : Option ApprovalMessage} {w w' : World}
    (h : takeOffer env ctx amount approval w = .ok w') :
    ∃ result, takeQuote env ctx amount w = .ok result ∧ TakeFlow ctx amount result w w' := by
  obtain ⟨offer, s, tokenIn, tokenOut, l, result, l', hc, hexec, rfl⟩ := takeOffer_eq_ok.mp h
  exact ⟨result, hc.quote, hc.takeFlow hexec⟩

/-! ## Account by account -/

/-- What a take of `amount` leaves, given the amounts computed for it. -/
structure TakeExact (ctx : TakeOffer) (amount : UInt64) (result : OfferProcessResult)
    (w w' : World) : Prop where
  split : result.tokenInFeeAmount.toNat + result.tokenInNetAmount.toNat = amount.toNat
  userIn : w'.ledger.amount (ctx.tokenInAccount ctx.user.key) + amount.toNat =
    w.ledger.amount (ctx.tokenInAccount ctx.user.key)
  userOut : w'.ledger.amount (ctx.tokenOutAccount ctx.user.key) =
    w.ledger.amount (ctx.tokenOutAccount ctx.user.key) + result.tokenOutAmount.toNat
  bossIn : w'.ledger.amount (ctx.tokenInAccount ctx.boss) =
    w.ledger.amount (ctx.tokenInAccount ctx.boss) +
      if w.ledger.mintAuthority ctx.tokenInMint = some Seeds.mintAuthority then
        result.tokenInFeeAmount.toNat
      else amount.toNat
  supplyIn : w'.ledger.supply ctx.tokenInMint +
      (if w.ledger.mintAuthority ctx.tokenInMint = some Seeds.mintAuthority then
        result.tokenInNetAmount.toNat
      else 0) = w.ledger.supply ctx.tokenInMint
  vaultIn : w'.ledger.amount (ctx.tokenInAccount Seeds.offerVaultAuthority) =
    w.ledger.amount (ctx.tokenInAccount Seeds.offerVaultAuthority)
  vaultOut : w'.ledger.amount (ctx.tokenOutAccount Seeds.offerVaultAuthority) +
      (if w.ledger.mintAuthority ctx.tokenOutMint = some Seeds.mintAuthority then 0
      else result.tokenOutAmount.toNat) =
    w.ledger.amount (ctx.tokenOutAccount Seeds.offerVaultAuthority)
  supplyOut : w'.ledger.supply ctx.tokenOutMint = w.ledger.supply ctx.tokenOutMint +
    if w.ledger.mintAuthority ctx.tokenOutMint = some Seeds.mintAuthority then
      result.tokenOutAmount.toNat
    else 0
  otherBalances : ∀ a, a ≠ ctx.tokenInAccount ctx.user.key → a ≠ ctx.tokenOutAccount ctx.user.key →
    a ≠ ctx.tokenInAccount ctx.boss → a ≠ ctx.tokenOutAccount Seeds.offerVaultAuthority →
      w'.ledger.amount a = w.ledger.amount a
  otherSupplies : ∀ k, k ≠ ctx.tokenInMint → k ≠ ctx.tokenOutMint →
    w'.ledger.supply k = w.ledger.supply k
  /-- The only account that may be opened is the user's for `token_out`. -/
  accounts : ∀ a, w'.ledger.HasAccount a ↔
    a = ctx.tokenOutAccount ctx.user.key ∨ w.ledger.HasAccount a
  terms : ∀ k, (w'.ledger.mints.lookup k).map Mint.terms =
    (w.ledger.mints.lookup k).map Mint.terms
  rest : w' = w.setLedger w'.ledger
  /-- A mint's supply changes by as much as the sum of its balances. -/
  conserved : ∀ k, held w'.ledger.accounts k + w.ledger.supply k =
    held w.ledger.accounts k + w'.ledger.supply k

section Exact

variable {ctx : TakeOffer} {amount : UInt64} {result : OfferProcessResult} {w w' : World}
  (h : TakeFlow ctx amount result w w')
include h

theorem TakeFlow.conserved (k : Pubkey) : held w'.ledger.accounts k + w.ledger.supply k =
    held w.ledger.accounts k + w'.ledger.supply k := by
  have htotal := h.total
  have hheld := Ledger.held_flow_pairs h.balances k
  have hsupply := h.supply.apply k
  rw [Pi.single_apply, Pi.single_apply] at hsupply
  change held w'.ledger.accounts k + ((if ctx.tokenInMint = k then amount.toNat else 0) +
    if ctx.tokenOutMint = k then ctx.vaultPays result w.ledger else 0) =
    held w.ledger.accounts k + ((if ctx.tokenInMint = k then ctx.bossReceives amount result w.ledger
    else 0) + if ctx.tokenOutMint = k then result.tokenOutAmount.toNat else 0) at hheld
  have hin : ctx.burned result w.ledger + ctx.bossReceives amount result w.ledger =
      amount.toNat := by
    unfold TakeOffer.burned TakeOffer.bossReceives
    split
    · exact htotal
    · exact Nat.zero_add _
  have hout : ctx.minted result w.ledger + ctx.vaultPays result w.ledger =
      result.tokenOutAmount.toNat := by
    unfold TakeOffer.minted TakeOffer.vaultPays
    split
    · exact Nat.add_zero _
    · exact Nat.zero_add _
  simp only [eq_comm (a := k)] at hsupply
  split_ifs at hheld hsupply <;> omega

theorem TakeFlow.userOut (hmints : ctx.tokenInMint ≠ ctx.tokenOutMint) :
    w'.ledger.amount (ctx.tokenOutAccount ctx.user.key) =
      w.ledger.amount (ctx.tokenOutAccount ctx.user.key) + result.tokenOutAmount.toNat := by
  have hvault : ctx.user.key ≠ Seeds.offerVaultAuthority := ctx.user.ne_authority (by decide)
  have hne : ∀ k, ctx.tokenOutAccount ctx.user.key ≠ ctx.tokenInAccount k :=
    fun k => (TakeOffer.tokenInAccount_ne_tokenOutAccount hmints k _).symm
  have hat := h.balances.apply (ctx.tokenOutAccount ctx.user.key)
  rw [TakeOffer.lost_apply, TakeOffer.gained_apply, if_neg (hne _),
    if_neg (hne _), if_neg (TakeOffer.tokenOutAccount_ne hvault), if_pos rfl] at hat
  omega

theorem TakeFlow.exact (hmints : ctx.tokenInMint ≠ ctx.tokenOutMint)
    (huser : ctx.user.key ≠ ctx.boss) (hboss : ctx.boss ≠ Seeds.offerVaultAuthority) :
    TakeExact ctx amount result w w' := by
  have hvault : ctx.user.key ≠ Seeds.offerVaultAuthority := ctx.user.ne_authority (by decide)
  have hio : ∀ k k', ctx.tokenInAccount k ≠ ctx.tokenOutAccount k' :=
    TakeOffer.tokenInAccount_ne_tokenOutAccount hmints
  have hoi : ∀ k k', ctx.tokenOutAccount k ≠ ctx.tokenInAccount k' := fun k k' => (hio k' k).symm
  have hbalance : ∀ a, w'.ledger.amount a + ctx.lost amount result w.ledger a =
      w.ledger.amount a + ctx.gained amount result w.ledger a := h.balances.apply
  have hsupply : ∀ k, w'.ledger.supply k +
      (if k = ctx.tokenInMint then ctx.burned result w.ledger else 0) = w.ledger.supply k +
      if k = ctx.tokenOutMint then ctx.minted result w.ledger else 0 := by
    intro k
    have hk := h.supply.apply k
    rwa [Pi.single_apply, Pi.single_apply] at hk
  simp only [TakeOffer.lost_apply, TakeOffer.gained_apply] at hbalance
  constructor
  · rw [Nat.add_comm]
    exact h.total
  · simpa [hio, huser] using hbalance (ctx.tokenInAccount ctx.user.key)
  · exact h.userOut hmints
  · simpa [hio, huser.symm, TakeOffer.bossReceives] using hbalance (ctx.tokenInAccount ctx.boss)
  · simpa [hmints, TakeOffer.burned] using hsupply ctx.tokenInMint
  · simpa [hio, hvault.symm, hboss.symm] using
      hbalance (ctx.tokenInAccount Seeds.offerVaultAuthority)
  · simpa [hoi, hvault.symm, TakeOffer.vaultPays] using
      hbalance (ctx.tokenOutAccount Seeds.offerVaultAuthority)
  · simpa [hmints.symm, TakeOffer.minted] using hsupply ctx.tokenOutMint
  · intro a h₁ h₂ h₃ h₄
    simpa [h₁, h₂, h₃, h₄] using hbalance a
  · intro k hin hout
    simpa [hin, hout] using hsupply k
  · exact h.accounts
  · exact h.terms
  · exact h.rest
  · exact h.conserved

end Exact

/-- A take by anyone but the boss moves exactly what was computed for it, and nothing else. -/
theorem take_exact {env : Env} {ctx : TakeOffer} {amount : UInt64}
    {approval : Option ApprovalMessage} {w w' : World}
    (hmints : ctx.tokenInMint ≠ ctx.tokenOutMint)
    (huser : ∀ s, w.state = some s → ctx.user ≠ s.boss)
    (h : takeOffer env ctx amount approval w = .ok w') :
    ∃ result, takeQuote env ctx amount w = .ok result ∧ TakeExact ctx amount result w w' := by
  obtain ⟨result, hquote, hflow⟩ := takeOffer_flow h
  obtain ⟨_, s, _, _, _, _, _, hc, _⟩ := takeOffer_eq_ok.mp h
  exact ⟨result, hquote, hflow.exact hmints (hc.user_ne_boss huser) hc.boss_ne_vault⟩

/-- Alice takes with 1000 units of USDC, from an offer whose fee is zero. -/
theorem take_exact_sample :
    let w := Library.Run.run step (World.genesis (Sample.ledger Sample.issuer))
      (Sample.market false)
    ∃ result w', takeOffer (Sample.env 1000) Sample.aliceTakes.toTakeOffer 1000 none w = .ok w' ∧
      TakeExact Sample.aliceTakes.toTakeOffer 1000 result w w' := by
  intro w
  obtain ⟨w', h⟩ : ∃ w', takeOffer (Sample.env 1000) Sample.aliceTakes.toTakeOffer 1000 none w =
      .ok w' := exists_ok_of_toBool (by decide +kernel)
  obtain ⟨result, _, hexact⟩ :=
    take_exact (by decide) (Sample.ne_boss (by decide +kernel) (by decide)) h
  exact ⟨result, w', h, hexact⟩

end OnreApp.Offers
