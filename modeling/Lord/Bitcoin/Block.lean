import Lord.Lib.LittleEndian
import Lord.Ots.Timestamp

/-! What the program uses of the Bitcoin crate: transactions with their serialization and their ids,
and blocks. -/

namespace Lord.Bitcoin

open Ots

structure OutPoint where
  txid : Bytes32
  vout : UInt32
  deriving Repr, DecidableEq

/-- `OutPoint::null()`. -/
def OutPoint.null : OutPoint := ⟨Bytes32.replicate 0, 0xffffffff⟩

structure TxIn where
  previousOutput : OutPoint
  scriptSig : Bytes
  sequence : UInt32
  witness : List Bytes
  deriving Repr, DecidableEq

structure TxOut where
  value : UInt64
  scriptPubkey : Bytes
  deriving Repr, DecidableEq

structure Transaction where
  version : UInt32
  lockTime : UInt32
  input : List TxIn
  output : List TxOut
  deriving Repr, DecidableEq

/-! ### Serialization -/

/-- `VarInt` of the consensus encoding. -/
def compactSize (n : Nat) : Bytes :=
  if n < 0xfd then [UInt8.ofNat n]
  else if n ≤ 0xffff then 0xfd :: LittleEndian.encode 2 n
  else if n ≤ 0xffffffff then 0xfe :: LittleEndian.encode 4 n
  else 0xff :: LittleEndian.encode 8 n

/-- Bytes behind their length. -/
def serializeBytes (bytes : Bytes) : Bytes := compactSize bytes.length ++ bytes

def OutPoint.serialize (outpoint : OutPoint) : Bytes :=
  outpoint.txid.val ++ LittleEndian.encode 4 outpoint.vout.toNat

def TxIn.serialize (input : TxIn) : Bytes :=
  input.previousOutput.serialize ++ serializeBytes input.scriptSig ++
    LittleEndian.encode 4 input.sequence.toNat

def TxOut.serialize (output : TxOut) : Bytes :=
  LittleEndian.encode 8 output.value.toNat ++ serializeBytes output.scriptPubkey

def serializeWitness (witness : List Bytes) : Bytes :=
  compactSize witness.length ++ witness.flatMap serializeBytes

namespace Transaction

/-- The inputs and the outputs, each list behind its length. -/
def serializeBody (tx : Transaction) : Bytes :=
  compactSize tx.input.length ++ tx.input.flatMap TxIn.serialize ++
    (compactSize tx.output.length ++ tx.output.flatMap TxOut.serialize)

/-- A transaction without inputs is written with a marker, which tells it from a segwit one. -/
def usesSegwitSerialization (tx : Transaction) : Bool :=
  tx.input.any (fun input => !input.witness.isEmpty) || tx.input.isEmpty

def serialize (tx : Transaction) : Bytes :=
  if tx.usesSegwitSerialization then
    LittleEndian.encode 4 tx.version.toNat ++ ([0, 1] ++ tx.serializeBody ++
      tx.input.flatMap fun input => serializeWitness input.witness) ++
        LittleEndian.encode 4 tx.lockTime.toNat
  else
    LittleEndian.encode 4 tx.version.toNat ++ tx.serializeBody ++
      LittleEndian.encode 4 tx.lockTime.toNat

/-- The bytes that the id is the hash of: no marker and no witness. -/
def serializeBase (tx : Transaction) : Bytes :=
  LittleEndian.encode 4 tx.version.toNat ++ tx.serializeBody ++
    LittleEndian.encode 4 tx.lockTime.toNat

def computeTxid [Digests] (tx : Transaction) : Bytes32 :=
  ⟨Digests.sha256 (Digests.sha256 tx.serializeBase), Digests.length_sha256 _⟩

end Transaction

structure Header where
  version : UInt32
  prevBlockhash : Bytes32
  merkleRoot : Bytes32
  time : UInt32
  bits : UInt32
  nonce : UInt32
  deriving Repr, DecidableEq

namespace Header

def serialize (header : Header) : Bytes :=
  LittleEndian.encode 4 header.version.toNat ++ header.prevBlockhash.val ++ header.merkleRoot.val ++
    LittleEndian.encode 4 header.time.toNat ++ LittleEndian.encode 4 header.bits.toNat ++
    LittleEndian.encode 4 header.nonce.toNat

def blockHash [Digests] (header : Header) : Bytes32 :=
  ⟨Digests.sha256 (Digests.sha256 header.serialize), Digests.length_sha256 _⟩

end Header

structure Block where
  header : Header
  txdata : List Transaction
  deriving Repr, DecidableEq

end Lord.Bitcoin
