import Lord.Bitcoin.Block

/-! What the wallet uses of the Bitcoin crate: the kinds of scripts, addresses, the least value of an
output, and the virtual size of a transaction. -/

namespace Lord.Bitcoin

open Ots

/-! ### Scripts -/

def isOpReturn (script : Bytes) : Bool := script.head? == some 0x6a

def isP2pkh (script : Bytes) : Bool :=
  script.length == 25 && script.take 3 == [0x76, 0xa9, 0x14] && script.drop 23 == [0x88, 0xac]

def isP2sh (script : Bytes) : Bool :=
  script.length == 23 && script.take 2 == [0xa9, 0x14] && script.drop 22 == [0x87]

/-- The version of a witness program: `OP_0` or `OP_PUSHNUM_1` to `OP_PUSHNUM_16`. -/
def versionOfOpcode (opcode : UInt8) : Option Nat :=
  if opcode = 0 then some 0
  else if 0x51 ≤ opcode ∧ opcode ≤ 0x60 then some (opcode.toNat - 0x50)
  else none

def witnessVersion (script : Bytes) : Option Nat :=
  match script with
  | opcode :: push :: program =>
    if 2 ≤ program.length ∧ program.length ≤ 40 ∧ push.toNat = program.length then
      versionOfOpcode opcode
    else
      none
  | _ => none

def isWitnessProgram (script : Bytes) : Bool := (witnessVersion script).isSome

/-- `Script::minimal_non_dust`, at 3000 satoshis per kilobyte. -/
def minimalNonDust (script : Bytes) : Nat :=
  3000 * (if isOpReturn script then 0
    else if isWitnessProgram script then
      32 + 4 + 1 + 107 / 4 + 4 + 8 + (serializeBytes script).length
    else 32 + 4 + 1 + 107 + 4 + 8 + (serializeBytes script).length) / 1000

/-! ### Addresses -/

inductive Network where
  | bitcoin
  | testnet
  | testnet4
  | signet
  | regtest
  deriving Repr, DecidableEq

/-- The networks that the text of an address tells apart. -/
inductive AddressNetwork where
  | mainnet
  | testnets
  | regtest
  deriving Repr, DecidableEq

inductive FromScriptError where
  | unrecognizedScript
  | witnessProgram
  deriving Repr, DecidableEq

/-- The scripts that have an address. -/
def addressable (script : Bytes) : Except FromScriptError Unit :=
  if isP2pkh script || isP2sh script then
    .ok ()
  else
    match witnessVersion script with
    | none => .error .unrecognizedScript
    | some 0 => if script.length = 22 ∨ script.length = 34 then .ok () else .error .witnessProgram
    | some _ => .ok ()

structure Address where
  scriptPubkey : Bytes
  network : AddressNetwork
  standard : addressable scriptPubkey = .ok ()
  deriving DecidableEq

def addressNetwork (script : Bytes) (network : Network) : AddressNetwork :=
  match network with
  | .bitcoin => .mainnet
  | .testnet | .testnet4 | .signet => .testnets
  | .regtest => if isWitnessProgram script then .regtest else .testnets

/-- `Address::from_script`. -/
def Address.fromScript (script : Bytes) (network : Network) : Except FromScriptError Address :=
  match h : addressable script with
  | .error err => .error err
  | .ok () => .ok ⟨script, addressNetwork script network, h⟩

theorem Address.fromScript_eq_ok {script : Bytes} {network : Network} {address : Address}
    (h : Address.fromScript script network = .ok address) :
    address.scriptPubkey = script ∧ address.network = addressNetwork script network := by
  unfold Address.fromScript at h
  split at h
  · cases h
  · cases h
    exact ⟨rfl, rfl⟩

/-! ### Sizes -/

namespace Transaction

/-- Bytes of the witnesses count once, all others four times. -/
def weight (tx : Transaction) : Nat := 3 * tx.serializeBase.length + tx.serialize.length

def vsize (tx : Transaction) : Nat := (tx.weight + 3) / 4

end Transaction

end Lord.Bitcoin
