import Lord.Lib.Bech32
import Lord.Lib.LittleEndian
import Lord.Ots.Timestamp

/-! Signatures from which public keys are recovered, and the addresses of these keys. -/

namespace Lord.Satscards

open Ots

/-! ### Signatures -/

/-- The order of the group of secp256k1. -/
def groupOrder : Nat := 0xfffffffffffffffffffffffffffffffebaaedce6af48a03bbfd25e8cd0364141

structure Signature where
  r : Fin groupOrder
  s : Fin groupOrder
  deriving DecidableEq

def fromBigEndian (bytes : Bytes) : Nat := LittleEndian.decode bytes.reverse

def toBigEndian (value : Nat) : Bytes := (LittleEndian.encode 32 value).reverse

namespace Signature

def fromCompact (data : Bytes) : Option Signature :=
  if data.length = 64 then
    if h : fromBigEndian (data.take 32) < groupOrder ∧ fromBigEndian (data.drop 32) < groupOrder then
      some ⟨⟨_, h.1⟩, ⟨_, h.2⟩⟩
    else none
  else none

def serializeCompact (signature : Signature) : Bytes :=
  toBigEndian signature.r ++ toBigEndian signature.s

/-- The second number is in the upper half. -/
def High (signature : Signature) : Prop := groupOrder / 2 < signature.s.val

instance (signature : Signature) : Decidable signature.High :=
  inferInstanceAs (Decidable (_ < _))

theorem fromBigEndian_toBigEndian (n : Fin groupOrder) : fromBigEndian (toBigEndian n) = n := by
  have horder : groupOrder < 256 ^ 32 := by decide
  rw [fromBigEndian, toBigEndian, List.reverse_reverse,
    LittleEndian.decode_encode (Nat.lt_trans n.isLt horder)]

theorem fromCompact_serializeCompact (signature : Signature) :
    fromCompact signature.serializeCompact = some signature := by
  have hr : signature.serializeCompact.take 32 = toBigEndian signature.r :=
    List.take_left' (by simp [toBigEndian])
  have hs : signature.serializeCompact.drop 32 = toBigEndian signature.s :=
    List.drop_left' (by simp [toBigEndian])
  have hlength : signature.serializeCompact.length = 64 := by simp [serializeCompact, toBigEndian]
  simp [fromCompact, hlength, hr, hs, fromBigEndian_toBigEndian]

end Signature

/-- A key as its compressed form. -/
abbrev PublicKey := { bytes : Bytes // bytes.length = 33 }

structure RecoverableSignature where
  signature : Signature
  id : Fin 4
  deriving DecidableEq

def RecoverableSignature.fromCompact (data : Bytes) (id : Fin 4) : Option RecoverableSignature :=
  (Signature.fromCompact data).map fun signature => ⟨signature, id⟩

/-- The curve: recovery may fail, and a signature verifies only in the lower half, where it does under
every key that is recovered from it. -/
class Secp256k1 where
  recover : RecoverableSignature → Bytes → Option PublicKey
  verify : Signature → Bytes → PublicKey → Bool
  not_high_of_verify : ∀ signature message key, verify signature message key = true → ¬signature.High
  verify_recovered : ∀ recoverable message key, recover recoverable message = some key →
    ¬recoverable.signature.High → verify recoverable.signature message key = true

/-! ### Addresses -/

inductive Chain where
  | mainnet
  | regtest
  | signet
  | testnet
  | testnet4
  deriving Repr, DecidableEq

inductive KnownHrp where
  | mainnet
  | testnets
  | regtest
  deriving Repr, DecidableEq

def KnownHrp.text : KnownHrp → String
  | .mainnet => "bc"
  | .testnets => "tb"
  | .regtest => "bcrt"

def Chain.bech32Hrp : Chain → KnownHrp
  | .mainnet => .mainnet
  | .regtest => .regtest
  | .signet | .testnet | .testnet4 => .testnets

/-- A key of a transaction, which is written compressed or not. -/
structure TransactionKey where
  compressed : Bool
  inner : PublicKey

def TransactionKey.new (inner : PublicKey) : TransactionKey := ⟨true, inner⟩

/-- `CompressedPublicKey::try_from`. -/
def TransactionKey.toCompressed (key : TransactionKey) : Option PublicKey :=
  if key.compressed then some key.inner else none

/-- An address that pays to the hash of a key. -/
structure Address where
  hrp : KnownHrp
  program : Bytes
  deriving Repr, DecidableEq

def Address.p2wpkh [Digests] (key : PublicKey) (hrp : KnownHrp) : Address :=
  ⟨hrp, Digests.ripemd160 (Digests.sha256 key.val)⟩

def Address.text (address : Address) : String :=
  Bech32.encodeOriginal address.hrp.text (0 :: Bech32.bytesToFes address.program)

/-- The characters of addresses. -/
def addressCharacters : List Char := "bcrt1qpzry9x8gf2tvdw0s3jn54khce6mua7l".toList

theorem Address.mem_text {address : Address} {c : Char} (h : c ∈ address.text.toList) :
    c ∈ addressCharacters := by
  have hhrp : ∀ hrp : KnownHrp, hrp.text.toList ⊆ addressCharacters := by
    intro hrp
    cases hrp <;> decide
  rcases Bech32.mem_encodeWith h with hhuman | rfl | halphabet
  · exact hhrp _ hhuman
  · decide
  · exact List.mem_append_right "bcrt1".toList halphabet

theorem Address.text_ne_nil (address : Address) : address.text.toList ≠ [] :=
  Bech32.encodeWith_ne_nil _ _ _

example : Address.text ⟨.mainnet, [0x2f, 0x99, 0xe6, 0x3e, 0x49, 0xcc, 0x5d, 0xb3, 0xaa, 0x1b, 0xab, 0xe6,
    0x64, 0x70, 0x92, 0x79, 0x47, 0x26, 0x46, 0xae]⟩ = "bc1q97v7v0jfe3wm82sm40nxguyj09rjv34w9rytlk" := by
  decide +kernel

end Lord.Satscards
