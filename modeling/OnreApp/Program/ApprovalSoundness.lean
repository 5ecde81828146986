import OnreApp.Offers.TakeOffer
import OnreApp.Program.Genesis
import OnreApp.Utils.Precompile

/-!
# Approvals are signed

A take of an offer that needs approval succeeds only if the precompile, in the instruction
just before, verified an approver's signature on exactly the message the user presents.
-/
namespace OnreApp.Program

open Library.FiniteStore Library.LittleEndian Library.Outcome Library.Run Offers Tokens Utils

/-- The transaction proves that a current approver signed `msg`, and nothing else, for this
program and this user. -/
structure ApprovalSigned (valid : SignedMessage → Bool) (env : Env) (s : State) (user : Pubkey)
    (msg : ApprovalMessage) (ix : TxInstruction) (signed : SignedMessage) : Prop where
  preceding : ∃ i, env.currentIndex = i + 1 ∧ env.instructions[i]? = some ix
  precompile : ix.programId = ed25519ProgramId
  accounts : ix.accounts = []
  verified : verifiedSignatures valid ix.data (env.instructions.map (·.data)) = some [signed]
  genuine : valid signed = true
  approver : (s.approver1 ≠ Pubkey.default ∧ signed.publicKey = s.approver1.toBytes) ∨
    (s.approver2 ≠ Pubkey.default ∧ signed.publicKey = s.approver2.toBytes)
  message : signed.message = msg.serialize
  program : msg.programId = programId
  user : msg.userPubkey = user
  unexpired : env.now ≤ msg.expiryUnix

/-- What the program's own checks establish, before the precompile is considered. -/
theorem verifyApprovalMessageGeneric_ok {env : Env} {program user approver1 approver2 : Pubkey}
    {msg : ApprovalMessage}
    (h : verifyApprovalMessageGeneric env program user approver1 approver2 msg = .ok ⟨⟩) :
    ∃ i ix, env.currentIndex = i + 1 ∧ env.instructions[i]? = some ix ∧
      ix.programId = ed25519ProgramId ∧ ix.accounts = [] ∧ SelfContained ix.data ∧
      ((approver1 ≠ Pubkey.default ∧ (ownSignedMessage ix.data).publicKey = approver1.toBytes) ∨
        (approver2 ≠ Pubkey.default ∧ (ownSignedMessage ix.data).publicKey = approver2.toBytes)) ∧
      (ownSignedMessage ix.data).message = msg.serialize ∧ msg.programId = program ∧
      msg.userPubkey = user ∧ env.now ≤ msg.expiryUnix := by
  simp only [verifyApprovalMessageGeneric, bind_eq_ok, require_eq_ok, okOr_eq_ok] at h
  obtain ⟨_, hexp, _, hprogram, _, huser, _, hpos, ix, hix, _, hed, _, hacc, parsed, hparse, _, _,
    _, hkey, signedMsg, hdecode, _, _, _, _, _, _, hsame⟩ := h
  have hparse' : parseEd25519Ix ix.data = .ok parsed := by
    cases hp : parseEd25519Ix ix.data with
    | ok p =>
      rw [hp] at hparse
      rw [Except.ok.inj hparse]
    | error e =>
      rw [hp] at hparse
      cases hparse
  obtain ⟨hself, rfl⟩ := parseEd25519Ix_eq_ok.mp hparse'
  refine ⟨env.currentIndex - 1, ix, by omega, hix, hed, hacc, hself, hkey, ?_, hprogram, huser,
    hexp⟩
  rw [← hsame]
  exact ApprovalMessage.tryFromSlice_eq_some.mp hdecode

/-- With the precompiles passed, a take's approval check means a genuine signature. -/
theorem approvalSigned {valid : SignedMessage → Bool} {env : Env}
    (hpassed : PrecompilesPassed valid env) {offer : Offer} (hneeds : offer.needsApproval = true)
    {approval : Option ApprovalMessage} {user : Pubkey} {s : State}
    (h : verifyOfferApproval env offer approval programId user s.approver1 s.approver2 =
      .ok ⟨⟩) :
    ∃ msg ix signed, approval = some msg ∧ ApprovalSigned valid env s user msg ix signed := by
  unfold verifyOfferApproval at h
  rw [if_pos hneeds] at h
  cases approval with
  | none => cases h
  | some msg =>
    obtain ⟨i, ix, hi, hix, hed, hacc, hself, hkey, hmsg, hprogram, huser, hexp⟩ :=
      verifyApprovalMessageGeneric_ok h
    have hran := hpassed ix (List.mem_of_getElem? hix) hed
    rw [verifiedSignatures_own hself] at hran
    have hgenuine : valid (ownSignedMessage ix.data) = true := by
      by_contra hne
      rw [if_neg hne] at hran
      cases hran
    have hverified := (verifiedSignatures_own hself (env.instructions.map (·.data))).trans
      (if_pos hgenuine)
    exact ⟨msg, ix, ownSignedMessage ix.data, rfl, ⟨i, hi, hix⟩, hed, hacc, hverified, hgenuine,
      hkey, hmsg, hprogram, huser, hexp⟩

/-- Approvals are sound on both routes, and the permissionless one is taken only where the
offer allows it. -/
theorem approval_sound {valid : SignedMessage → Bool} {env : Env}
    (hpassed : PrecompilesPassed valid env) (w : World) (amount : UInt64)
    (approval : Option ApprovalMessage) :
    (∀ ctx w', takeOffer env ctx amount approval w = .ok w' →
      ∃ offer s, w.offers.lookup ctx.offerPda = some offer ∧ w.state = some s ∧
        (offer.needsApproval = true → ∃ msg ix signed, approval = some msg ∧
          ApprovalSigned valid env s ctx.user.key msg ix signed)) ∧
    (∀ ctx w', takeOfferPermissionless env ctx amount approval w = .ok w' →
      ∃ offer s, w.offers.lookup ctx.offerPda = some offer ∧ w.state = some s ∧
        offer.allowPermissionless = true ∧
        (offer.needsApproval = true → ∃ msg ix signed, approval = some msg ∧
          ApprovalSigned valid env s ctx.user.key msg ix signed)) := by
  constructor
  · intro ctx w' h
    obtain ⟨offer, s, _, _, _, _, _, hc, _⟩ := takeOffer_eq_ok.mp h
    exact ⟨offer, s, hc.offer_stored, hc.state_stored, fun hneeds =>
      approvalSigned hpassed hneeds hc.approved⟩
  · intro ctx w' h
    obtain ⟨offer, s, _, _, _, _, _, _, _, hc, hallow, _⟩ := takeOfferPermissionless_eq_ok.mp h
    exact ⟨offer, s, hc.offer_stored, hc.state_stored, hallow, fun hneeds =>
      approvalSigned hpassed hneeds hc.approved⟩

namespace Sample

/-- Alice may take until 2000. -/
def aliceApproval : ApprovalMessage := ⟨programId, alice.key, 2000⟩

/-- The approver's Ed25519 signature on the encoding of `aliceApproval`. -/
def aliceSignature : List UInt8 :=
  toLe 32 0xe51514cd3dd0f1bd976dabddbd9dd46a6cdba0d7c341261e643ab07e70072675 ++
    toLe 32 0xed47d4d688effe19e125c9cc0e5d6265546a51385627fc92c4591dd3bf8a06b

/-- Key, signature and message follow the header, at 16, 48 and 112. -/
def approvalInstruction : TxInstruction where
  programId := ed25519ProgramId
  accounts := []
  data := [1, 0, 48, 0, 255, 255, 16, 0, 255, 255, 112, 0, 72, 0, 255, 255] ++
    approver.toBytes ++ aliceSignature ++ aliceApproval.serialize

def approvedEnv : Env :=
  { env 1000 with instructions := [approvalInstruction, ⟨programId, [], []⟩], currentIndex := 1 }

/-- The signatures known to be valid: the approver's. -/
def knownValid (m : SignedMessage) : Bool :=
  m = ⟨approver.toBytes, aliceApproval.serialize, aliceSignature⟩

end Sample

/-- Alice takes an offer that needs approval, on either route: both takes succeed, and what
was signed is her approval. -/
theorem approval_sound_sample :
    let w := run step (World.genesis (Sample.ledger Sample.issuer)) (Sample.market true)
    (∃ w', takeOffer Sample.approvedEnv Sample.aliceTakes.toTakeOffer 1000
      (some Sample.aliceApproval) w = .ok w') ∧
    (∃ w', takeOfferPermissionless Sample.approvedEnv Sample.aliceTakes 1000
      (some Sample.aliceApproval) w = .ok w') ∧
    ∃ offer s, w.offers.lookup Sample.aliceTakes.offerPda = some offer ∧ w.state = some s ∧
      offer.allowPermissionless = true ∧ ∃ ix signed, ApprovalSigned Sample.knownValid
        Sample.approvedEnv s Sample.alice.key Sample.aliceApproval ix signed := by
  intro w
  have hpassed : PrecompilesPassed Sample.knownValid Sample.approvedEnv := by decide +kernel
  obtain ⟨hdirect, hpermissionless⟩ := approval_sound hpassed w 1000 (some Sample.aliceApproval)
  have h₁ : ∃ w', takeOffer Sample.approvedEnv Sample.aliceTakes.toTakeOffer 1000
      (some Sample.aliceApproval) w = .ok w' := exists_ok_of_toBool (by decide +kernel)
  obtain ⟨w₂, h₂⟩ : ∃ w', takeOfferPermissionless Sample.approvedEnv Sample.aliceTakes 1000
      (some Sample.aliceApproval) w = .ok w' := exists_ok_of_toBool (by decide +kernel)
  obtain ⟨offer, s, ho, hs, hallow, hsigned⟩ := hpermissionless _ _ h₂
  have hneeds : (w.offers.lookup Sample.aliceTakes.offerPda).map Offer.needsApproval =
      some true := by
    decide +kernel
  rw [ho] at hneeds
  obtain ⟨msg, ix, signed, hmsg, h⟩ := hsigned (Option.some.inj hneeds)
  cases Option.some.inj hmsg
  exact ⟨h₁, ⟨w₂, h₂⟩, offer, s, ho, hs, hallow, ix, signed, h⟩

end OnreApp.Program
