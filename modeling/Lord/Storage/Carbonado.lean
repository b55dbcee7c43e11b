import Lord.Lib.LittleEndian

/-! The interface of the Carbonado crate: its container header, its codec and its slice proofs. -/

namespace Lord.Storage

/-- The fields of a container header that are read here. -/
structure Header where
  payloadNonce : Bytes
  hash : Bytes32
  slhPublicKey : Bytes
  format : UInt8
  /-- The index as its little-endian bytes. -/
  chunkIndex : Bytes
  encodedLen : UInt32
  paddingLen : UInt32
  metadata : Option Bytes
  headerMac : Bytes

/-- The functions and constants of the crate.  Encoding draws a nonce. -/
class Carbonado where
  magicno : Bytes
  headerLen : Nat
  sliceLen : UInt32
  sliceLen_pos : 0 < sliceLen
  /-- `Header::try_from`. -/
  header : Bytes → Result Header
  /-- `file::encode`. -/
  encode : Bytes32 → Bytes → UInt8 → Bytes → Result Bytes
  /-- `file::decode`. -/
  decode : Bytes32 → Bytes → Result (Header × Bytes)
  /-- `verify_slice` of one slice: the body, the slice index, the root and the format. -/
  verifySlice : Bytes → UInt32 → Bytes32 → UInt8 → Result Unit
  computeHeaderMac : Bytes32 → Bytes → Result Bytes
  /-- `Format::from(bits).contains(Format::Verification)`. -/
  containsVerification : UInt8 → Bool
  encodeBaoHash : Bytes32 → String

def constantTimeEq (a b : Bytes) : Bool :=
  if a.length ≠ b.length then
    false
  else
    (a.zip b).foldl (fun diff pair => diff ||| (pair.1 ^^^ pair.2)) 0 == 0

theorem constantTimeEq_refl (a : Bytes) : constantTimeEq a a = true := by
  have hfold : ∀ xs : Bytes, (xs.zip xs).foldl (fun diff pair => diff ||| (pair.1 ^^^ pair.2)) 0 =
      (0 : UInt8) := by
    intro xs
    induction xs with
    | nil => rfl
    | cons x rest ih =>
      rw [List.zip_cons_cons, List.foldl_cons]
      simpa using ih
  simp [constantTimeEq, hfold]

variable [Carbonado]

/-- The bytes that the header MAC covers. -/
def Header.authData (header : Header) : Bytes :=
  Carbonado.magicno ++ header.payloadNonce ++ header.hash.val ++ header.slhPublicKey ++
    [header.format] ++ header.chunkIndex ++ LittleEndian.encode 4 header.encodedLen.toNat ++
    LittleEndian.encode 4 header.paddingLen.toNat ++ header.metadata.getD (List.replicate 8 0)

def authenticateHeader (masterKey : Bytes32) (header : Header) : Result Unit :=
  match Carbonado.computeHeaderMac masterKey header.authData with
  | .error err => .error s!"failed to compute header mac: {err}"
  | .ok expectedMac =>
    if constantTimeEq expectedMac header.headerMac then
      .ok ()
    else
      .error "carbonado header authentication failed"

end Lord.Storage
