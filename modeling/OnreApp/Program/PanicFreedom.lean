import OnreApp.Offers.SlotInvariant
import OnreApp.Program.Effects
import OnreApp.Program.Genesis
import OnreApp.Program.ViewAvailability

/-!
# Unchecked arithmetic on the vectors of an offer

The cleaning subtracts one from a start time, and pricing divides by a duration and adds one to
the number of an interval, without a check. The representation invariant of the vector array
keeps all of it in range, at any clock.
-/
namespace OnreApp.Program

open Library.Checked Library.Outcome Library.Run Offers Tokens

/-- Every offer a run reaches, with a clock past zero, keeps the representation invariant. -/
theorem wellFormed_run {l : Ledger} {actions : List Action}
    (hclock : ∀ a ∈ actions, 0 < a.env.now) {k : OfferPda} {offer : Offer}
    (hk : (run step (World.genesis l) actions).offers.lookup k = some offer) :
    WellFormed offer := by
  refine offers_invariant (C := fun _ a => 0 < a.env.now) (Q := fun _ => WellFormed)
    (fun k o ho => absurd ho (World.genesis_offers l k o))
    (fun _ => wellFormed_newOffer _ _ _ _ _) ?_ ?_ ?_ k offer hk
  · intro a w w' ctx k o bps _ _ _ h
    exact ⟨h.slots, h.distinct⟩
  · intro a w w' e k o o' hnow _ _ he h
    exact h.edit hnow he
  · exact along_of_forall fun a ha _ => hclock a ha

/-! ## The instructions -/

theorem bossOffer_load_no_panic (ctx : BossOfferAccounts) (w : World) :
    Avoids .panic (ctx.load w) :=
  BossOfferAccounts.load_avoids (fun _ => nofun) nofun nofun

theorem addOfferVector_no_panic {env : Env} (hnow : 0 < env.now) (ctx : AddOfferVector)
    (args : AddOfferVectorArgs) (w : World) : Avoids .panic (addOfferVector env ctx args w) := by
  refine avoids_bind (bossOffer_load_no_panic ctx w) fun _ _ => ?_
  exact avoids_bind (addVector_no_panic hnow) fun _ _ => avoids_pure _ _

theorem deleteOfferVector_no_panic (env : Env) (ctx : DeleteOfferVector) (t : UInt64)
    (w : World) : Avoids .panic (deleteOfferVector env ctx t w) := by
  refine avoids_bind (bossOffer_load_no_panic ctx w) fun _ _ => ?_
  exact avoids_bind (deleteVector_no_panic _ _ _) fun _ _ => avoids_pure _ _

theorem deleteAllOfferVectors_no_panic (ctx : DeleteAllOfferVectors) (w : World) :
    Avoids .panic (deleteAllOfferVectors ctx w) :=
  avoids_bind (bossOffer_load_no_panic ctx w) fun _ _ => avoids_pure _ _

theorem nextIntervalTimestamp_no_panic {v : OfferVector} (hv : Priced v) (now : UInt64) :
    Avoids .panic (nextIntervalTimestamp now v) := by
  refine avoids_bind hv.duration_avoids fun _ _ => ?_
  refine avoids_bind hv.nextStep_avoids fun _ _ => ?_
  exact avoids_bind (avoids_okOr _ nofun) fun _ _ => avoids_okOr _ nofun

theorem getNav_no_panic {env : Env} {ctx : OfferView} {w : World}
    (h : ∀ p, ctx.load w = .ok p → WellFormed p.1) : Avoids .panic (getNav env ctx w) := by
  refine avoids_bind (OfferView.load_avoids (fun _ => nofun) nofun nofun) fun p hload => ?_
  refine avoids_bind (avoids_okOr _ nofun) fun v hactive => ?_
  have hv := (h p hload).priced (findActiveVectorAt_spec hactive).1
  refine avoids_bind hv.stepPriceAt_no_panic fun _ _ => ?_
  exact avoids_bind (nextIntervalTimestamp_no_panic hv _) fun _ _ => avoids_pure _ _

/-- In every state a run reaches with a clock past zero: each offer's slots are all zero or hold
a vector with positive parts, at distinct start times; an edit of the array does not panic at
any further such clock, and the step price of a stored vector, the end of its interval and
`get_nav` do not at any clock at all. -/
theorem offers_wellFormed_no_panic (l : Ledger) (actions : List Action)
    (hclock : ∀ a ∈ actions, 0 < a.env.now) :
    let w := run step (World.genesis l) actions
    (∀ k offer, w.offers.lookup k = some offer →
      ((∀ v ∈ offer.slots, v = OfferVector.default ∨
          0 < v.startTime ∧ 0 < v.baseTime ∧ 0 < v.basePrice ∧ 0 < v.priceFixDuration) ∧
        DistinctStarts offer) ∧
      (∀ now args, 0 < now → addVector now args offer ≠ .error .panic) ∧
      ∀ v ∈ offer.slots, v.startTime ≠ 0 → ∀ now,
        stepPriceAt v now ≠ .error .panic ∧ nextIntervalTimestamp now v ≠ .error .panic) ∧
    ∀ env : Env,
      (∀ ctx args, 0 < env.now → addOfferVector env ctx args w ≠ .error .panic) ∧
      (∀ ctx t, deleteOfferVector env ctx t w ≠ .error .panic) ∧
      (∀ ctx, deleteAllOfferVectors ctx w ≠ .error .panic) ∧
      ∀ ctx, getNav env ctx w ≠ .error .panic := by
  intro w
  have hwell : ∀ k offer, w.offers.lookup k = some offer → WellFormed offer :=
    fun k offer hk => wellFormed_run hclock hk
  constructor
  · intro k offer hk
    have h := hwell k offer hk
    refine ⟨⟨fun v hv => ?_, h.distinct⟩, fun now args hnow => addVector_no_panic hnow, ?_⟩
    · rcases h.slots v hv with he | ⟨hstart, hp⟩
      · exact .inl he
      · exact .inr ⟨hstart, hp.baseTime_pos, hp.basePrice_pos, hp.duration_pos⟩
    · intro v hv hne now
      have hp := h.priced ⟨hv, hne⟩
      exact ⟨hp.stepPriceAt_no_panic, nextIntervalTimestamp_no_panic hp now⟩
  · intro env
    exact ⟨fun ctx args hnow => addOfferVector_no_panic hnow ctx args w,
      fun ctx t => deleteOfferVector_no_panic env ctx t w,
      fun ctx => deleteAllOfferVectors_no_panic ctx w,
      fun ctx => getNav_no_panic fun p hload => hwell _ p.1 (OfferView.load_offer hload)⟩

theorem offers_wellFormed_no_panic_sample :
    let w := run step (World.genesis (Sample.ledger Sample.issuer)) (Sample.growing 100000 86400)
    (∃ offer, w.offers.lookup ⟨Sample.usdc, Sample.onyc⟩ = some offer ∧ DistinctStarts offer ∧
      addVector 1 ⟨some 2000, 1, 1, 0, 1⟩ offer ≠ .error .panic) ∧
      getNav (Sample.env 9223372036854775807) ⟨Sample.usdc, Sample.onyc⟩ w ≠ .error .panic := by
  intro w
  obtain ⟨hoffers, hinstructions⟩ := offers_wellFormed_no_panic (Sample.ledger Sample.issuer)
    (Sample.growing 100000 86400) (by decide)
  obtain ⟨offer, hk⟩ : ∃ offer, w.offers.lookup ⟨Sample.usdc, Sample.onyc⟩ = some offer :=
    Option.isSome_iff_exists.mp (by decide +kernel)
  obtain ⟨⟨_, hdistinct⟩, hadd, _⟩ := hoffers _ offer hk
  exact ⟨⟨offer, hk, hdistinct, hadd 1 _ (by decide)⟩, (hinstructions _).2.2.2 _⟩

end OnreApp.Program
