import Lord.Lib.Decimal
import Lord.Lib.Split
import Lord.Satscards.Signature

/-! The query of a satscard link: its five parameters, in any order, and the address whose key signed the
text in front of the last value. -/

namespace Lord.Satscards

open Ots Split

inductive State where
  | error
  | sealed
  | unsealed
  deriving Repr, DecidableEq

inductive Error where
  | addressRecovery
  | duplicateKey (key : String)
  | parameterValueMissing (parameter : String)
  | state (value : String)
  | slot (value : String) (source : Decimal.ParseIntError)
  | missingAddressSuffix
  | missingNonce
  | missingSignature
  | missingSlot
  | missingState
  | nonce (value : String) (source : Hex.FromHexError)
  | nonceLength (nonce : Bytes)
  | signatureHex (value : String) (source : Hex.FromHexError)
  | signatureDecode
  | unknownKey (key : String)
  deriving Repr, DecidableEq

def Error.text : Error → String
  | .addressRecovery => "address recovery failed"
  | .duplicateKey key => s!"duplicate key `{key}`"
  | .parameterValueMissing parameter => s!"parameter {parameter} has no value"
  | .state value => s!"unrecognized state {value}"
  | .slot value source => s!"invalid slot `{value}`: {source.text}"
  | .missingAddressSuffix => "missing address suffix"
  | .missingNonce => "missing nonce"
  | .missingSignature => "missing signature"
  | .missingSlot => "missing slot"
  | .missingState => "missing state"
  | .nonce value source => s!"invalid nonce `{value}`: {source.text}"
  | .nonceLength bytes => s!"invalid nonce length {bytes.length}, expected 16 hex digits"
  | .signatureHex value source => s!"hex decoding signature `{value}` failed: {source.text}"
  | .signatureDecode => "decoding signature failed: malformed signature"
  | .unknownKey key => s!"unknown key `{key}`"

/-- How the parser ends when it returns no card. -/
inductive Stop where
  | err (err : Error)
  | panic (message : String)
  deriving DecidableEq

/-- Eight bytes, the model of `[u8; 8]`. -/
abbrev Bytes8 := { bytes : Bytes // bytes.length = 8 }

structure Satscard where
  address : Address
  nonce : Bytes8
  queryParameters : String
  slot : UInt8
  state : State
  deriving DecidableEq

/-! ### The parameters -/

/-- What the loop over the parameters has read. -/
structure Fields where
  addressSuffix : Option (List Char)
  nonce : Option Bytes8
  signature : Option Signature
  slot : Option UInt8
  state : Option State
  deriving DecidableEq

/-- The five parameters. -/
structure Parameters where
  addressSuffix : List Char
  nonce : Bytes8
  signature : Signature
  slot : UInt8
  state : State
  deriving DecidableEq

def readState (value : List Char) : Except Error State :=
  match String.ofList value with
  | "S" => .ok .sealed
  | "E" => .ok .error
  | "U" => .ok .unsealed
  | value => .error (.state value)

def readSlot (value : List Char) : Except Error UInt8 :=
  match Decimal.parse 8 value with
  | .ok slot => .ok (UInt8.ofNat slot)
  | .error source => .error (.slot (String.ofList value) source)

def readNonce (value : List Char) : Except Error Bytes8 :=
  match Hex.fromHex value with
  | .error source => .error (.nonce (String.ofList value) source)
  | .ok nonce => if h : nonce.length = 8 then .ok ⟨nonce, h⟩ else .error (.nonceLength nonce)

def readSignature (value : List Char) : Except Error Signature :=
  match Hex.fromHex value with
  | .error source => .error (.signatureHex (String.ofList value) source)
  | .ok signature => okOr (Signature.fromCompact signature) .signatureDecode

/-- A parameter of the query. -/
def Fields.set (fields : Fields) (key value : List Char) : Except Error Fields :=
  match String.ofList key with
  | "u" => do return { fields with state := some (← readState value) }
  | "o" => do return { fields with slot := some (← readSlot value) }
  | "r" => .ok { fields with addressSuffix := some value }
  | "n" => do return { fields with nonce := some (← readNonce value) }
  | "s" => do return { fields with signature := some (← readSignature value) }
  | key => .error (.unknownKey key)

/-- A round of the loop over the parameters, which keeps the keys. -/
def readParameter (read : List (List Char) × Fields) (parameter : List Char) :
    Except Error (List (List Char) × Fields) := do
  let (key, value) ← okOr (splitOnce '=' parameter) (.parameterValueMissing (String.ofList parameter))
  if key ∈ read.1 then .error (.duplicateKey (String.ofList key))
  else
    let fields ← read.2.set key value
    return (key :: read.1, fields)

def Fields.require (fields : Fields) : Except Error Parameters := do
  let addressSuffix ← okOr fields.addressSuffix .missingAddressSuffix
  let nonce ← okOr fields.nonce .missingNonce
  let signature ← okOr fields.signature .missingSignature
  let slot ← okOr fields.slot .missingSlot
  let state ← okOr fields.state .missingState
  return ⟨addressSuffix, nonce, signature, slot, state⟩

/-- The parameters of a query. -/
def readParameters (query : List Char) : Except Error Parameters := do
  let (_, fields) ← (query.splitOn '&').foldlM readParameter ([], ⟨none, none, none, none, none⟩)
  fields.require

/-! ### The address -/

variable [Digests] [Secp256k1]

/-- The search under the recovery ids that are left. -/
def searchAddress (addressSuffix : List Char) (chain : Chain) (message : Bytes) (signature : Signature) :
    List (Fin 4) → Except Stop Address
  | [] => .error (.err .addressRecovery)
  | id :: rest =>
    match RecoverableSignature.fromCompact signature.serializeCompact id with
    | none => .error (.panic "called `Result::unwrap()` on an `Err` value: InvalidSignature")
    | some recoverable =>
      match Secp256k1.recover recoverable message with
      | none => searchAddress addressSuffix chain message signature rest
      | some publicKey =>
        if Secp256k1.verify signature message publicKey then
          match (TransactionKey.new publicKey).toCompressed with
          | none =>
            .error (.panic "called `Result::unwrap()` on an `Err` value: UncompressedPublicKeyError")
          | some publicKey =>
            let address := Address.p2wpkh publicKey chain.bech32Hrp
            if addressSuffix <:+ address.text.toList then .ok address
            else searchAddress addressSuffix chain message signature rest
        else .error (.panic "called `Result::unwrap()` on an `Err` value: IncorrectSignature")

/-- The text of a query whose hash is signed. -/
def digest (message : List Char) : Bytes := Digests.sha256 (Utf8.encode (String.ofList message))

instance neZeroRecoveryId : NeZero 4 := ⟨by decide⟩

/-- `RecoveryId::from_i32` accepts 0, 1, 2 and 3. -/
def recoverAddress (addressSuffix : List Char) (chain : Chain) (message : List Char)
    (signature : Signature) : Except Stop Address :=
  searchAddress addressSuffix chain (digest message) signature [0, 1, 2, 3]

/-- The text that is signed. -/
def signedMessage (query : List Char) : Option (List Char) := upToLast '=' query

def fromQueryParameters (chain : Chain) (query : String) : Except Stop Satscard :=
  match readParameters query.toList with
  | .error err => .error (.err err)
  | .ok parameters =>
    match signedMessage query.toList with
    | none => .error (.panic "called `Option::unwrap()` on a `None` value")
    | some message =>
      match recoverAddress parameters.addressSuffix chain message parameters.signature with
      | .error stop => .error stop
      | .ok address => .ok ⟨address, parameters.nonce, query, parameters.slot, parameters.state⟩

/-! ### The page -/

/-- A link to a card, as it is entered. -/
structure Url where
  fragment : Option String
  query : Option String

inductive Page (Info : Type) where
  | redirect (target : String)
  | card (card : Option (Satscard × Option Info))

inductive PageStop where
  | badRequest (message : String)
  | internal (err : Lord.Error)
  | panic (message : String)

/-- `Server::satscard`, for a request with a link in its form, or else with a query. -/
def satscard {Info : Type} (chain : Chain) (addressInfo : Address → Result (Option Info))
    (form : Option Url) (query : Option String) : Except PageStop (Page Info) :=
  match form with
  | some url =>
    match url.fragment, url.query with
    | some fragment, _ => .ok (.redirect s!"/satscard?{fragment}")
    | none, some query => .ok (.redirect s!"/satscard?{query}")
    | none, none => .error (.badRequest "satscard URL missing fragment")
  | none =>
    match query.filter (· ≠ "") with
    | none => .ok (.card none)
    | some query =>
      match fromQueryParameters chain query with
      | .error (.err err) => .error (.badRequest s!"invalid satscard query parameters: {err.text}")
      | .error (.panic message) => .error (.panic message)
      | .ok card =>
        match addressInfo card.address with
        | .ok info => .ok (.card (some (card, info)))
        | .error err => .error (.internal err)

end Lord.Satscards
