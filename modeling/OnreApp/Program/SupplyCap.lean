import OnreApp.Program.Effects
import OnreApp.Program.Genesis

/-!
# The supply cap

Three of the four instructions that can mint compare the new supply with the configured cap.
The fourth, the fulfillment of a redemption, passes no cap.
-/
namespace OnreApp.Program

open Library.FiniteStore Library.Outcome Library.Run Offers Redemption Tokens Utils

def isFulfillment : Instruction → Bool
  | .fulfillRedemptionRequest _ => true
  | _ => false

/-- What any instruction but a fulfillment mints stays within the cap, if there is one. -/
theorem Effect.minted_within {env : Env} {i : Instruction} {w w' : World} {s : State}
    (h : Effect env i w w') (hi : isFulfillment i = false) (hs : w.state = some s)
    (hmax : 0 < s.maxSupply) : MintedWithin s.maxSupply.toNat w.ledger w'.ledger := by
  have hcreated : ∀ {l l' : Ledger}, Calls (fun _ => False) l l' →
      MintedWithin s.maxSupply.toNat l l' := fun hc => .of_calls hc fun _ _ => False.elim
  have hmoved : ∀ {l l' : Ledger} {debited credited : List Pubkey},
      Calls (TokenCpi.MovesWithin debited credited) l l' → MintedWithin s.maxSupply.toNat l l' :=
    fun hc => .of_calls hc fun _ _ hm => hm.not_mints
  cases h with
  | view | initialized | govern | acceptBoss | kill | close | namePermissionless | editOffer
  | updateRedemptionOfferFee => exact hcreated (.refl _)
  | makeOffer _ _ _ vault => exact hcreated (.of_initIfNeeded vault)
  | deposit _ _ calls | withdraw _ _ _ calls => exact hmoved calls
  | @mintTo s' mint a amount l₁ l₂ stored _ _ loaded _ account minted =>
    obtain rfl : s = s' := Option.some.inj (hs.symm.trans stored)
    have hpre : Calls (fun _ => False) w.ledger l₁ := .of_initIfNeeded account
    have hsupply : l₁.supply mint.key ≤ mint.supply.toNat := by
      refine (hpre.supply_le fun _ => False.elim).trans ?_
      rw [Ledger.supply, loaded]
      exact le_rfl
    have hmint : Calls (fun _ => True) l₁ l₂ := mintTokens_calls minted trivial
    have hpost : Calls (fun _ => False) l₂ l₂ := .refl l₂
    exact (mintTokens_capped minted hmax hsupply).surround hpre (fun _ _ => False.elim) hmint hpost
      fun _ _ => False.elim
  | @setMintAuthority _ mint new =>
    have hcalls : Calls (fun c => ∀ k, ¬ c.mints k) w.ledger (w.ledger.setAuthority mint new) :=
      (Calls.refl w.ledger).setAuthority fun _ hm => hm
    exact .of_calls hcalls fun _ k hc => hc k
  | take _ stored ledger =>
    obtain rfl := Option.some.inj (hs.symm.trans stored)
    exact ledger.capped hmax
  | makeRedemptionOffer _ _ _ _ vaultIn vaultOut =>
    exact hcreated ((Calls.of_initIfNeeded vaultIn).trans (.of_initIfNeeded vaultOut))
  | createRequest _ created =>
    rw [created.result]
    exact hmoved created.calls
  | cancelRequest _ cancelled =>
    rw [cancelled.result]
    exact hmoved cancelled.calls
  | fulfillRequest instr =>
    subst instr
    cases hi

/-! ## The exempt instruction -/

/-- The same world under another cap. -/
def World.withMaxSupply (w : World) (maxSupply : UInt64) : World :=
  { w with state := w.state.map fun s => { s with maxSupply } }

theorem World.loadState_withMaxSupply (w : World) (cap : UInt64) :
    (w.withMaxSupply cap).loadState =
      (fun s : State => { s with maxSupply := cap }) <$> w.loadState := by
  unfold loadState withMaxSupply
  cases w.state with
  | none => rfl
  | some s => rfl

/-- A fulfillment loads the cap with the rest of the state and reads it nowhere. -/
theorem step_fulfillment_withMaxSupply {a : Action} (ha : isFulfillment a.instruction = true)
    (w : World) (cap : UInt64) :
    step a (w.withMaxSupply cap) = (·.withMaxSupply cap) <$> step a w := by
  obtain ⟨env, i⟩ := a
  cases i with
  | fulfillRedemptionRequest ctx =>
    show Redemption.fulfillRedemptionRequest env ctx _ =
      _ <$> Redemption.fulfillRedemptionRequest env ctx w
    unfold Redemption.fulfillRedemptionRequest
    rw [World.loadState_withMaxSupply, bind_map_left]
    simp only [map_bind, map_pure]
    rfl
  | _ => cases ha

/-! ## The cap in every run -/

/-- In every run: whatever instruction but a fulfillment mints ONyc while a cap is set leaves
its supply within the cap, and what a fulfillment does is the same under any cap or none. -/
theorem minting_keeps_cap (w₀ : World) (actions : List Action) (a : Action) :
    let w := run step w₀ actions
    (isFulfillment a.instruction = false → ∀ s, w.state = some s → 0 < s.maxSupply →
      Minted w.ledger (exec step w a).ledger s.onycMint →
      (exec step w a).ledger.supply s.onycMint ≤ s.maxSupply.toNat) ∧
    (isFulfillment a.instruction = true → ∀ cap,
      step a (w.withMaxSupply cap) = (·.withMaxSupply cap) <$> step a w) := by
  intro w
  constructor
  · intro ha s hs hmax
    refine exec_preserves (P := fun w' : World => Minted w.ledger w'.ledger s.onycMint →
      w'.ledger.supply s.onycMint ≤ s.maxSupply.toNat) ?_ fun w' hstep => ?_
    · intro hm
      have hnone : Calls (fun _ => False) w.ledger w.ledger := .refl w.ledger
      exact absurd hm (hnone.not_minted fun _ => False.elim)
    · exact (execute_effect hstep).minted_within ha hs hmax s.onycMint
  · intro ha cap
    exact step_fulfillment_withMaxSupply ha w cap

/-- The deployment with a cap that leaves room for less than half an ONyc. -/
def Sample.capped : List Action := setup ++ [act (.configureMaxSupply ⟨boss⟩ 2500000000)]

theorem Sample.capped_state :
    ∃ s, (run step (World.genesis (ledger Seeds.mintAuthority)) (capped ++ [bobRequests])).state =
      some s ∧ s.maxSupply = 2500000000 ∧ s.onycMint = onyc := by
  let w := run step (World.genesis (ledger Seeds.mintAuthority)) (capped ++ [bobRequests])
  refine ⟨w.state.get (by decide +kernel), (Option.some_get _).symm, ?_, ?_⟩
  · decide +kernel
  · decide +kernel

/-- The boss mints 0.4 ONyc, which is within the cap; a fulfillment mints 0.6 even under a cap of
one unit. -/
theorem minting_keeps_cap_sample :
    let w := run step (World.genesis (Sample.ledger Seeds.mintAuthority))
      (Sample.capped ++ [Sample.bobRequests])
    let w' := exec step w (Sample.act (.mintTo ⟨Sample.boss, Sample.onyc, .token⟩ 400000000))
    (w'.ledger.supply Sample.onyc = 2400000009 ∧ w'.ledger.supply Sample.onyc ≤ 2500000000) ∧
    ∃ w', step Sample.fulfillBob (w.withMaxSupply 1) = .ok w' ∧
      w'.ledger.supply Sample.onyc = 2600000009 := by
  intro w w'
  constructor
  · obtain ⟨s, hs, hmax, honyc⟩ := Sample.capped_state
    have hcap := (minting_keeps_cap (World.genesis (Sample.ledger Seeds.mintAuthority))
      (Sample.capped ++ [Sample.bobRequests])
      (Sample.act (.mintTo ⟨Sample.boss, Sample.onyc, .token⟩ 400000000))).1 rfl s hs
      (by rw [hmax]; decide)
    rw [hmax, honyc] at hcap
    refine ⟨by decide +kernel, hcap ?_⟩
    exact ⟨[.mintToChecked Sample.onyc (Sample.account Sample.boss.key Sample.onyc) 400000000],
      _, _, by decide +kernel, List.mem_singleton_self _, by decide⟩
  · obtain ⟨w₁, hstep, hsupply⟩ : ∃ w₁, step Sample.fulfillBob w = .ok w₁ ∧
        w₁.ledger.supply Sample.onyc = 2600000009 := exists_ok_of_map (by decide +kernel)
    have hany := (minting_keeps_cap (World.genesis (Sample.ledger Seeds.mintAuthority))
      (Sample.capped ++ [Sample.bobRequests]) Sample.fulfillBob).2 rfl 1
    refine ⟨w₁.withMaxSupply 1, ?_, hsupply⟩
    rw [hany, hstep]
    rfl

/-- Fulfilling Bob's request mints 0.6 ONyc, which is not. -/
theorem fulfillment_exceeds_cap :
    ¬ ∀ (w₀ : World) (actions : List Action) (a : Action),
      let w := run step w₀ actions
      ∀ s, w.state = some s → 0 < s.maxSupply →
        Minted w.ledger (exec step w a).ledger s.onycMint →
        (exec step w a).ledger.supply s.onycMint ≤ s.maxSupply.toNat := by
  intro h
  obtain ⟨s, hs, hmax, honyc⟩ := Sample.capped_state
  have hcap := h (World.genesis (Sample.ledger Seeds.mintAuthority))
    (Sample.capped ++ [Sample.bobRequests]) Sample.fulfillBob s hs (by rw [hmax]; decide)
  rw [hmax, honyc] at hcap
  have hminted := hcap ⟨[.mintToChecked Sample.onyc (Sample.account Sample.bob.key Sample.onyc)
      600000000, .transferChecked (redemptionVault Sample.usdc .token)
      (Sample.account Sample.boss.key Sample.usdc) 600000],
    _, _, by decide +kernel, List.mem_cons_self, by decide⟩
  revert hminted
  decide +kernel

end OnreApp.Program
