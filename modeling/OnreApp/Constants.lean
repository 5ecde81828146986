import OnreApp.Library.LittleEndian

/-!
# Keys and constants

A public key is 32 bytes, held as the number they spell in little-endian order. The
program's own authorities are program-derived addresses of fixed seeds: the constants
below are what `find_program_address` yields for them under the declared program id.
-/
namespace OnreApp

open Library.LittleEndian

structure Pubkey where
  bits : BitVec 256
  deriving DecidableEq

namespace Pubkey

/-- `Pubkey::default()`: 32 zero bytes, which is also the System Program's address. -/
protected def default : Pubkey := ⟨0⟩

instance : Inhabited Pubkey := ⟨Pubkey.default⟩

def toBytes (k : Pubkey) : List UInt8 := toLe 32 k.bits.toNat

/-- The key spelled by 32 bytes. -/
def ofBytes (bs : List UInt8) : Pubkey := ⟨BitVec.ofNat 256 (ofLe bs)⟩

@[simp] theorem length_toBytes (k : Pubkey) : k.toBytes.length = 32 := length_toLe 32 _

@[simp] theorem ofBytes_toBytes (k : Pubkey) : ofBytes k.toBytes = k := by
  have h : ofLe k.toBytes = k.bits.toNat :=
    ofLe_toLe (lt_of_lt_of_eq k.bits.isLt rfl)
  rw [ofBytes, h, BitVec.ofNat_toNat, BitVec.setWidth_eq]

theorem toBytes_ofBytes {bs : List UInt8} (h : bs.length = 32) : (ofBytes bs).toBytes = bs := by
  have hlt := ofLe_lt bs
  rw [h] at hlt
  have hfits : ofLe bs < 2 ^ 256 := hlt.trans_eq (by norm_num)
  refine (eq_toLe h ?_).symm
  rw [ofBytes, BitVec.toNat_ofNat, Nat.mod_eq_of_lt hfits]

end Pubkey

/-- `declare_id!("onreuGhHHgVzMWSkj2oQDLDtvvGvoepBPkqyaubFcwe")`. -/
def programId : Pubkey := ⟨0x5d07e9b037ef12db5d7f33b816247cad1dbe84bd4e0bddff3faa804c1e91fc0b⟩

/-- The Ed25519 precompile, `Ed25519SigVerify111111111111111111111111111`. -/
def ed25519ProgramId : Pubkey := ⟨0x804470cafc648af42749747005ff408d838f42f912befb937cd6467d03⟩

/-- The upgradeable loader, `BPFLoaderUpgradeab1e11111111111111111111111`. -/
def bpfLoaderUpgradeableId : Pubkey :=
  ⟨0x8004107a53c0d224c1163db9c2002bae63f73e1510e2b0a1884e91f6a802⟩

/-- `get_program_data_address` of this program. -/
def programDataAddress : Pubkey :=
  ⟨0xe96cfa56b5930f7cc30e8fe0e33a8890d6d4be269aaba5816c393d2a98a91177⟩

namespace Seeds

/-- `b"redemption_offer"`. -/
def redemptionOffer : List UInt8 :=
  [114, 101, 100, 101, 109, 112, 116, 105, 111, 110, 95, 111, 102, 102, 101, 114]

/-- `b"redemption_request"`. -/
def redemptionRequest : List UInt8 :=
  [114, 101, 100, 101, 109, 112, 116, 105, 111, 110, 95, 114, 101, 113, 117, 101, 115, 116]

/-- Seeds `[b"offer_vault_authority"]`. -/
def offerVaultAuthority : Pubkey :=
  ⟨0xcf5a713394ff2f47747d4bca00db7d5912d00515fbc38781fdbc38eae5c6edac⟩

/-- Seeds `[b"permissionless-1"]`. -/
def permissionlessAuthority : Pubkey :=
  ⟨0xbb28c2bbc9e1cf86b18d4d3f1e25a017a9b88572c35e2192479002335a91a64f⟩

/-- Seeds `[b"mint_authority"]`. -/
def mintAuthority : Pubkey :=
  ⟨0x745b0af92ad6e35ff6dfd72e73918a8a66421dbf54d068bf3898a29aef53a48e⟩

/-- Seeds `[b"redemption_offer_vault_authority"]`. -/
def redemptionOfferVaultAuthority : Pubkey :=
  ⟨0x96203cfc6f399e6d8337c3a2f1405b4e5d5d66502e0068bf6ba91d11f66b0abc⟩

end Seeds

/-- The authorities this program signs for inside its own calls to the token program. -/
def programAuthorities : List Pubkey :=
  [Seeds.offerVaultAuthority, Seeds.permissionlessAuthority, Seeds.mintAuthority,
    Seeds.redemptionOfferVaultAuthority]

/-- A key that can sign. The program's own authorities have no private key and the program
never calls itself; the all-zero key is the System Program, whose signature no transaction
carries. Whatever is only ever written from a signer is an `ExternalKey` too. -/
structure ExternalKey where
  key : Pubkey
  external : key ∉ programAuthorities
  nonzero : key ≠ Pubkey.default
  deriving DecidableEq

theorem ExternalKey.ext {a b : ExternalKey} (h : a.key = b.key) : a = b := by
  cases a; cases b; cases h; rfl

theorem ExternalKey.ne_authority (k : ExternalKey) {a : Pubkey} (ha : a ∈ programAuthorities) :
    k.key ≠ a :=
  fun h => k.external (h ▸ ha)

abbrev Signer := ExternalKey

def maxVectors : ℕ := 10
def maxAdmins : ℕ := 20
def priceDecimals : ℕ := 9
def maxBasisPoints : ℕ := 10000
def maxAllowedFeeBps : ℕ := 1000

end OnreApp
