import OnreApp.Program.Step
import OnreApp.Tokens.CallTrace

/-!
# Before initialization

The program starts on a ledger that others have set up: mints, and accounts that hold what
was issued to them.
-/
namespace OnreApp.Tokens.Ledger

open Library.FiniteStore Library.Outcome

/-- Mints that nobody holds a tracked account of. -/
def ofMints (mints : Store Pubkey Mint) : Ledger where
  mints := mints
  accounts := ∅
  cpis := []
  mint_exists := by
    intro a n h
    cases h
  backed := by
    intro k m _
    rw [held, total_empty]
    exact Nat.zero_le _

/-- The mint's authority opens an account, if needed, and issues tokens to it. -/
def issue (l : Ledger) (holding : Ata × UInt64) : Except Error Ledger := do
  let (account, amount) := holding
  let l ← l.initIfNeeded account
  let authority ← okOr (l.mintAuthority account.mint) .tokenProgram
  l.mintToChecked account.mint account authority amount

/-- The ledger after issuing every holding; what cannot be issued is left out. -/
def issueAll (mints : Store Pubkey Mint) (holdings : List (Ata × UInt64)) : Ledger :=
  Library.Run.run (fun holding l => issue l holding) (ofMints mints) holdings

theorem issue_calls {l l' : Ledger} {holding : Ata × UInt64} (h : issue l holding = .ok l') :
    Calls (fun _ => True) l l' := by
  simp only [issue, bind_eq_ok, mintToChecked_eq_ok] at h
  obtain ⟨l₁, hinit, _, _, hc, rfl⟩ := h
  exact (Calls.of_initIfNeeded hinit).mintTo hc trivial

/-- Without transfer fees among the mints, the issued ledger is exact. -/
theorem exact_issueAll {mints : Store Pubkey Mint} (holdings : List (Ata × UInt64))
    (h : ∀ k m, mints.lookup k = some m → m.transferFeeConfig = none) :
    (issueAll mints holdings).Exact := by
  have hcalls : Calls (fun _ => True) (ofMints mints) (issueAll mints holdings) :=
    Library.Run.run_preserves (P := fun l => Calls (fun _ => True) (ofMints mints) l) (.refl _)
      (fun _ _ _ hl hs => hl.trans (issue_calls hs)) holdings
  refine Exact.calls ?_ hcalls
  intro epoch k n
  show (mints.lookup k).elim 0 (·.transferFee epoch n) = 0
  cases hm : mints.lookup k with
  | none => rfl
  | some m =>
    show m.transferFee epoch n = 0
    rw [Mint.transferFee, h k m hm]

end OnreApp.Tokens.Ledger

namespace OnreApp.Program

open Library.FiniteStore Tokens

/-- The world before `initialize`: none of the program's accounts exist. -/
def World.genesis (l : Ledger) : World where
  state := none
  offers := ∅
  redemptionOffers := ∅
  redemptionRequests := ∅
  permissionlessAuthority := none
  ledger := l
  events := []

theorem World.genesis_offers (l : Ledger) (k : OfferPda) (o : Offer) :
    (World.genesis l).offers.lookup k ≠ some o := by
  intro h
  cases h

theorem World.genesis_redemptionOffers (l : Ledger) (k : RedemptionOfferPda)
    (o : RedemptionOffer) : (World.genesis l).redemptionOffers.lookup k ≠ some o := by
  intro h
  cases h

end OnreApp.Program

/-! ## A small deployment

Two mints, offers and redemption offers in both directions at a price of one, and a few
holders: the ground on which statements about runs are evaluated. -/

namespace OnreApp.Program.Sample

open Library.FiniteStore Library.LittleEndian Offers Tokens

def onyc : Pubkey := ⟨101⟩
def usdc : Pubkey := ⟨102⟩
def issuer : Pubkey := ⟨103⟩
def boss : Signer := ⟨⟨104⟩, by decide, by decide⟩
def redemptionAdmin : Signer := ⟨⟨105⟩, by decide, by decide⟩
def alice : Signer := ⟨⟨106⟩, by decide, by decide⟩
def bob : Signer := ⟨⟨107⟩, by decide, by decide⟩

def account (wallet mint : Pubkey) : Ata := ⟨wallet, mint, .token⟩

/-- Both mints without transfer fees; ONyc under a given authority. -/
def mints (onycAuthority : Pubkey) : Store Pubkey Mint :=
  ((∅ : Store Pubkey Mint).insert onyc ⟨.token, 9, some onycAuthority, 0, none⟩).insert usdc
    ⟨.token, 6, some issuer, 0, none⟩

def holdings : List (Ata × UInt64) :=
  [(account alice.key onyc, 1000000000), (account alice.key usdc, 1000000),
    (account bob.key usdc, 1000000), (account boss.key usdc, 1000000),
    (account boss.key onyc, 1000000000), (account Seeds.permissionlessAuthority usdc, 7),
    (account Seeds.permissionlessAuthority onyc, 9)]

def ledger (onycAuthority : Pubkey) : Ledger :=
  Ledger.issueAll (mints onycAuthority) holdings

/-- The two redemption offers and the first request of each, with the addresses
`find_program_address` yields for them. -/
def addresses : List (List (List UInt8) × Pubkey) :=
  let onycUsdc : Pubkey := ⟨0xcddb6c88f9e5382734da1cdd6d3375359977cf4ecd0a1519fe269ed4f2768bb2⟩
  let usdcOnyc : Pubkey := ⟨0x3bf8f35a45dd8d3d682d264a01294a59bd724e6877b7c82c8943b9e7e572d501⟩
  [([Seeds.redemptionOffer, onyc.toBytes, usdc.toBytes], onycUsdc),
    ([Seeds.redemptionOffer, usdc.toBytes, onyc.toBytes], usdcOnyc),
    ([Seeds.redemptionRequest, onycUsdc.toBytes, toLe 8 0],
      ⟨0xf7db26867104d78c215dde930988d18e6d860d44b2f6cea5348b9b6a3186ba01⟩),
    ([Seeds.redemptionRequest, usdcOnyc.toBytes, toLe 8 0],
      ⟨0x9bb8048c104d17690fc05e2fffb28cb0b24cafe2fc3ea6e1b785b6690da889b0⟩)]

def env (now : UInt64) : Env where
  clock := ⟨now, 0⟩
  instructions := []
  currentIndex := 0
  rawAccount := fun _ => ⟨bpfLoaderUpgradeableId, some (.programData 0 (some boss.key))⟩
  findProgramAddress := fun seeds => (addresses.lookup seeds).getD Pubkey.default
  isWritable := fun k =>
    k ∉ [Pubkey.default, ed25519ProgramId, bpfLoaderUpgradeableId, programId]
  system_readOnly := rfl

/-- An instruction at time 1000. -/
def act (instruction : Instruction) : Action := ⟨env 1000, instruction⟩

def setup : List Action :=
  [act (.initializeState ⟨boss, some programDataAddress, onyc⟩),
    act (.setRedemptionAdmin ⟨boss⟩ redemptionAdmin.key),
    act (.makeOffer ⟨usdc, .token, onyc, boss⟩ 0 false true),
    act (.makeOffer ⟨onyc, .token, usdc, boss⟩ 0 false true),
    act (.addOfferVector ⟨usdc, onyc, boss⟩ ⟨none, 1000, 1000000000, 0, 86400⟩),
    act (.addOfferVector ⟨onyc, usdc, boss⟩ ⟨none, 1000, 1000000000, 0, 86400⟩),
    act (.makeRedemptionOffer ⟨onyc, .token, usdc, .token, boss⟩ 0),
    act (.makeRedemptionOffer ⟨usdc, .token, onyc, .token, boss⟩ 0)]

/-- A key that signs approvals. -/
def approver : Pubkey := ⟨0x1a5107f7681a02af2523a6daf372e10e3a0764c9d3fe4bd5b70ab18201985ad7⟩

/-- One offer that both routes can take, with ONyc in the vault to pay from. -/
def market (needsApproval : Bool) : List Action :=
  [act (.initializeState ⟨boss, some programDataAddress, onyc⟩),
    act (.addApprover ⟨boss⟩ approver),
    act (.makeOffer ⟨usdc, .token, onyc, boss⟩ 0 needsApproval true),
    act (.addOfferVector ⟨usdc, onyc, boss⟩ ⟨none, 1000, 1000000000, 0, 86400⟩),
    act (.offerVaultDeposit ⟨onyc, .token, boss⟩ 500000000)]

/-- Alice's accounts in a take on the permissionless route, and on the direct one. -/
def aliceTakes : TakeOfferPermissionless where
  boss := boss.key
  tokenInMint := usdc
  tokenInProgram := .token
  tokenOutMint := onyc
  tokenOutProgram := .token
  user := alice
  vaultAuthority := Seeds.offerVaultAuthority
  permissionlessAuthority := Seeds.permissionlessAuthority
  mintAuthority := Seeds.mintAuthority

/-- Alice asks to redeem 0.5 ONyc for USDC. -/
def aliceRequests : Action :=
  act (.createRedemptionRequest ⟨⟨onyc, usdc⟩, alice, onyc, .token⟩ 500000000)

/-- Bob asks to redeem 0.6 USDC for ONyc. -/
def bobRequests : Action :=
  act (.createRedemptionRequest ⟨⟨usdc, onyc⟩, bob, usdc, .token⟩ 600000)

/-- The redemption admin fulfills Alice's request. -/
def fulfillAlice : Action :=
  act (.fulfillRedemptionRequest ⟨boss.key, ⟨usdc, onyc⟩, ⟨onyc, usdc⟩, ⟨⟨onyc, usdc⟩, 0⟩, onyc,
    .token, usdc, .token, alice.key, redemptionAdmin⟩)

/-- The redemption admin fulfills Bob's request. -/
def fulfillBob : Action :=
  act (.fulfillRedemptionRequest ⟨boss.key, ⟨onyc, usdc⟩, ⟨usdc, onyc⟩, ⟨⟨usdc, onyc⟩, 0⟩, usdc,
    .token, onyc, .token, bob.key, redemptionAdmin⟩)

theorem ne_boss {w : World} {user : Signer} (h : w.state.map State.boss = some boss)
    (hne : user ≠ boss) : ∀ s, w.state = some s → user ≠ s.boss := by
  intro s hs
  rw [hs] at h
  rw [Option.some.inj h]
  exact hne

theorem exact_ledger (onycAuthority : Pubkey) : (ledger onycAuthority).Exact := by
  refine Ledger.exact_issueAll holdings fun k m hm => ?_
  rw [mints, lookup_insert_eq, lookup_insert_eq] at hm
  split at hm
  · rw [← Option.some.inj hm]
  · split at hm
    · rw [← Option.some.inj hm]
    · cases hm

end OnreApp.Program.Sample
