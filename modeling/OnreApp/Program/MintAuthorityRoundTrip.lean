import OnreApp.Program.Effects
import OnreApp.Program.Genesis

/-!
# Handing a mint authority over and back

The way to the program goes through the token program that owns the mint. The way back
always goes through the SPL Token program, so it is open to that program's mints alone.
-/
namespace OnreApp.Program

open Library.FiniteStore Library.Outcome Library.Run Tokens Utils

/-- `key` is the mint's authority; nothing else has changed, in the ledger or beside it. -/
structure AuthorityMoved (w w' : World) (mint key : Pubkey) : Prop where
  authority : w'.ledger.mintAuthority mint = some key
  record : ∀ m, w.ledger.mints.lookup mint = some m →
    w'.ledger.mints.lookup mint = some { m with mintAuthority := some key }
  otherMints : ∀ k, k ≠ mint → w'.ledger.mints.lookup k = w.ledger.mints.lookup k
  balances : w'.ledger.accounts = w.ledger.accounts
  rest : w' = w.setLedger w'.ledger

theorem authorityMoved_setAuthority {w : World} {mint key : Pubkey} {m : Mint}
    (hm : w.ledger.mints.lookup mint = some m) :
    AuthorityMoved w (w.setLedger (w.ledger.setAuthority mint key)) mint key := by
  have hlookup : (w.ledger.setAuthority mint key).mints.lookup mint =
      some { m with mintAuthority := some key } := by
    refine (lookup_modify _ _ _ _).trans ?_
    rw [if_pos rfl, hm]
    rfl
  constructor
  · show ((w.ledger.setAuthority mint key).mints.lookup mint |>.map (·.mintAuthority)).join = _
    rw [hlookup]
    rfl
  · intro m' hm'
    rw [← Option.some.inj (hm.symm.trans hm')]
    exact hlookup
  · intro k hk
    exact (lookup_modify _ _ _ _).trans (if_neg hk)
  · rfl
  · rfl

section Mint

variable {l l' : Ledger} {program : TokenProgram} {mint current : Pubkey}

theorem exists_mint_of_canSetAuthority (h : l.CanSetAuthority program mint current) :
    ∃ m, l.mints.lookup mint = some m ∧ m.tokenProgram = program := by
  obtain ⟨m, hm, he⟩ := Option.map_eq_some_iff.mp h
  exact ⟨m, hm, (Prod.mk.inj he).1⟩

/-- No calls move a mint to another token program. -/
theorem canSetAuthority_of_calls {allow : TokenCpi → Prop} {m : Mint} (hc : Calls allow l l')
    (hm : l.mints.lookup mint = some m) (ha : l'.mintAuthority mint = some current) :
    l'.CanSetAuthority m.tokenProgram mint current := by
  have hfixed := hc.mint_fixed mint
  rw [hm] at hfixed
  obtain ⟨m', hm', he⟩ := Option.map_eq_some_iff.mp hfixed
  rw [Ledger.mintAuthority, hm'] at ha
  have ha : m'.mintAuthority = some current := ha
  show (l'.mints.lookup mint).map _ = _
  rw [hm']
  show some (m'.tokenProgram, m'.mintAuthority) = _
  rw [(Prod.mk.inj he).1, ha]

end Mint

/-- Exactly when the way back is open. -/
theorem transferMintAuthorityToBoss_ok_iff {ctx : TransferMintAuthority} {w : World} {s : State}
    (hs : w.state = some s) (hb : s.boss = ctx.boss)
    (hheld : w.ledger.CanSetAuthority ctx.tokenProgram ctx.mint Seeds.mintAuthority) :
    (∃ w', transferMintAuthorityToBoss ctx w = .ok w' ∧ AuthorityMoved w w' ctx.mint s.boss.key) ↔
      ctx.tokenProgram = .token := by
  constructor
  · intro h
    obtain ⟨w', hok, _⟩ := h
    obtain ⟨_, _, _, hp, _⟩ := transferMintAuthorityToBoss_ok hok
    exact hp
  · intro hp
    obtain ⟨m, hm, hpair⟩ := Option.map_eq_some_iff.mp hheld
    refine ⟨w.setLedger (w.ledger.setAuthority ctx.mint ctx.boss.key), ?_, ?_⟩
    · simp only [transferMintAuthorityToBoss, bind_eq_ok, loadBossState_eq_ok, require_eq_ok,
        Ledger.loadMint_eq_ok, unwrapMintAuthority, okOr_eq_ok, Ledger.setMintAuthority_eq_ok,
        pure_eq_ok]
      exact ⟨s, ⟨hs, hb⟩, { m with key := ctx.mint }, ⟨hm, rfl⟩, Seeds.mintAuthority,
        (Prod.mk.inj hpair).2, ⟨⟩, rfl, ⟨⟩, hp, _, ⟨hp ▸ hheld, rfl⟩, rfl⟩
    · rw [hb]
      exact authorityMoved_setAuthority hm

/-- After the boss has handed a mint authority over, and for as long as the program holds it,
whoever is boss can take it back exactly if the mint is the SPL Token program's. -/
theorem mint_authority_round_trip {w₀ w₁ : World} {ctx : TransferMintAuthority}
    (h : transferMintAuthorityToProgram ctx w₀ = .ok w₁) (actions : List Action) {s : State}
    (hs : (run step w₁ actions).state = some s)
    (hheld : (run step w₁ actions).ledger.mintAuthority ctx.mint = some Seeds.mintAuthority) :
    AuthorityMoved w₀ w₁ ctx.mint Seeds.mintAuthority ∧
      ((∃ w₃, transferMintAuthorityToBoss ⟨s.boss, ctx.mint, ctx.tokenProgram⟩
          (run step w₁ actions) = .ok w₃ ∧
          AuthorityMoved (run step w₁ actions) w₃ ctx.mint s.boss.key) ↔
        ∃ m, w₀.ledger.mints.lookup ctx.mint = some m ∧ m.tokenProgram = .token) := by
  obtain ⟨s₀, _, _, hcan, rfl⟩ := transferMintAuthorityToProgram_ok h
  obtain ⟨m, hm, hp⟩ := exists_mint_of_canSetAuthority hcan
  have hmoved : AuthorityMoved w₀
      (w₀.setLedger (w₀.ledger.setAuthority ctx.mint Seeds.mintAuthority)) ctx.mint
        Seeds.mintAuthority := authorityMoved_setAuthority hm
  refine ⟨hmoved, ?_⟩
  have hback := canSetAuthority_of_calls (calls_run _ actions) (hmoved.record m hm) hheld
  have hback : (run step _ actions).ledger.CanSetAuthority ctx.tokenProgram ctx.mint
      Seeds.mintAuthority := hp ▸ hback
  have hiff := @transferMintAuthorityToBoss_ok_iff ⟨s.boss, ctx.mint, ctx.tokenProgram⟩ _ s hs rfl
    hback
  rw [hiff]
  constructor
  · intro hp'
    exact ⟨m, hm, hp.trans hp'⟩
  · intro hexists
    obtain ⟨m', hm', hp'⟩ := hexists
    rw [← hp, Option.some.inj (hm.symm.trans hm')]
    exact hp'

namespace Sample

/-- The program is set up over a ledger in which the boss can mint ONyc. -/
def bossMints (l : Ledger) : World :=
  run step (World.genesis l) [act (.initializeState ⟨boss, some programDataAddress, onyc⟩)]

/-- ONyc as a Token-2022 mint. -/
def token2022Mint : Store Pubkey Mint :=
  (∅ : Store Pubkey Mint).insert onyc ⟨.token2022, 9, some boss.key, 0, none⟩

def handOver (program : TokenProgram) : TransferMintAuthority := ⟨boss, onyc, program⟩

end Sample

/-- The round trip with an SPL Token mint: it can be undone. -/
theorem mint_authority_round_trip_sample : ∃ w₁ w₃,
    transferMintAuthorityToProgram (Sample.handOver .token)
      (Sample.bossMints (Sample.ledger Sample.boss.key)) = .ok w₁ ∧
    transferMintAuthorityToBoss (Sample.handOver .token) w₁ = .ok w₃ ∧
    AuthorityMoved w₁ w₃ Sample.onyc Sample.boss.key := by
  have hok : ∃ w₁, transferMintAuthorityToProgram (Sample.handOver .token)
      (Sample.bossMints (Sample.ledger Sample.boss.key)) = .ok w₁ ∧
      w₁.state.map (·.boss) = some Sample.boss ∧
      w₁.ledger.mintAuthority Sample.onyc = some Seeds.mintAuthority :=
    ⟨_, rfl, by decide +kernel, by decide +kernel⟩
  obtain ⟨w₁, h, hboss, hheld⟩ := hok
  obtain ⟨s, hs, hb⟩ := Option.map_eq_some_iff.mp hboss
  obtain ⟨_, hback⟩ := mint_authority_round_trip h [] hs hheld
  obtain ⟨w₃, h₃, hmoved⟩ := hback.mpr ⟨_, rfl, rfl⟩
  rw [hb] at h₃ hmoved
  exact ⟨w₁, w₃, h, h₃, hmoved⟩

/-- A Token-2022 mint goes to the program and does not come back. -/
theorem token2022_authority_locked : ∃ w₁,
    transferMintAuthorityToProgram (Sample.handOver .token2022)
      (Sample.bossMints (.ofMints Sample.token2022Mint)) = .ok w₁ ∧
    w₁.ledger.mintAuthority Sample.onyc = some Seeds.mintAuthority ∧
    transferMintAuthorityToBoss (Sample.handOver .token2022) w₁ = .error .tokenProgram :=
  ⟨_, rfl, by decide +kernel, rfl⟩

end OnreApp.Program
