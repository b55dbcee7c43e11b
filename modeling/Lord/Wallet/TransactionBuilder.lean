import Mathlib.Data.Finset.Basic
import Lord.Lib.Error
import Lord.Bitcoin.Script
import Lord.Index.Updater

/-! The builder of the transactions that send a sat: selection of inputs, alignment, padding, fees, and
the checks of the result.  Amounts are `u64`, and sums that do not fit panic. -/

namespace Lord.Wallet

open Bitcoin Ots
open Index (SatPoint)

structure InscriptionId where
  txid : Bytes32
  index : UInt32
  deriving Repr, DecidableEq

inductive Target where
  | value (value : Nat)
  | postage
  | exactPostage (postage : Nat)
  deriving Repr, DecidableEq

/-- The fee of each virtual size, in `u64`. -/
structure FeeRate where
  fee : Nat → Nat
  fits : ∀ vsize, fee vsize < 2 ^ 64

/-- An output under construction. -/
structure Output where
  value : Nat
  scriptPubkey : Bytes
  deriving Repr, DecidableEq

def Output.txOut (output : Output) : TxOut := ⟨UInt64.ofNat output.value, output.scriptPubkey⟩

structure TransactionBuilder where
  /-- The outputs that the wallet can spend, in the order of their outpoints. -/
  amounts : AList fun _ : OutPoint => TxOut
  changeAddresses : List Address
  feeRate : FeeRate
  inputs : List OutPoint
  inscriptions : AList fun _ : SatPoint => List InscriptionId
  lockedUtxos : Finset OutPoint
  network : Network
  outgoing : SatPoint
  outputs : List Output
  recipient : Bytes
  runicUtxos : Finset OutPoint
  target : Target
  unusedChangeAddresses : List Address
  utxos : List OutPoint

namespace TransactionBuilder

inductive Error where
  | duplicateAddress (address : Address)
  | dust (outputValue dustValue : Nat)
  | invalidAddress (source : FromScriptError)
  | notEnoughCardinalUtxos
  | notInWallet (outgoingSatpoint : SatPoint)
  | outOfRange (outgoingSatpoint : SatPoint) (maximum : Nat)
  | utxoContainsAdditionalInscriptions (outgoingSatpoint inscribedSatpoint : SatPoint)
      (inscriptionIds : List InscriptionId)
  | valueOverflow
  deriving DecidableEq

/-- How a stage ends when it does not return the builder. -/
inductive Stop where
  | err (err : Error)
  | panic (message : String)
  deriving DecidableEq

abbrev Build := Except Stop

def additionalInputVbytes : Nat := 57
def additionalOutputVbytes : Nat := 43
def schnorrSignatureSize : Nat := 64
def maxPostage : Nat := 2 * 10000
def targetPostage : Nat := 10000

/-! ### Amounts -/

def checkedAdd (a b : Nat) : Option Nat := if a + b < 2 ^ 64 then some (a + b) else none

def checkedSub (a b : Nat) : Option Nat := if b ≤ a then some (a - b) else none

def addAmount (a b : Nat) : Build Nat := okOr (checkedAdd a b) (.panic "Amount addition error")

def subAmount (a b : Nat) : Build Nat := okOr (checkedSub a b) (.panic "Amount subtraction error")

/-- A sum of `u64`s. -/
def addU64 (a b : Nat) : Build Nat := okOr (checkedAdd a b) (.panic "attempt to add with overflow")

def sumU64 (xs : List Nat) : Build Nat := xs.foldlM addU64 0

def assert (condition : Bool) (message : String) : Build Unit :=
  if condition then .ok () else .error (.panic message)

/-- An operation on the value of the last output. -/
def updateLast (message : String) (f : Nat → Build Nat) : List Output → Build (List Output)
  | [] => .error (.panic message)
  | [output] => do
    let value ← f output.value
    return [⟨value, output.scriptPubkey⟩]
  | output :: rest => do
    let rest ← updateLast message f rest
    return output :: rest

/-! ### Parts of the builder -/

variable (b : TransactionBuilder)

def new (outgoing : SatPoint) (inscriptions : AList fun _ : SatPoint => List InscriptionId)
    (amounts : AList fun _ : OutPoint => TxOut) (lockedUtxos runicUtxos : Finset OutPoint)
    (recipient : Bytes) (change : Address × Address) (feeRate : FeeRate) (target : Target)
    (network : Network) : TransactionBuilder where
  utxos := amounts.keys
  amounts
  changeAddresses := [change.1, change.2].dedup
  feeRate
  inputs := []
  inscriptions
  lockedUtxos
  outgoing
  outputs := []
  recipient
  runicUtxos
  target
  unusedChangeAddresses := [change.1, change.2]
  network

/-- `self.amounts[outpoint].value`. -/
def amountOf (outpoint : OutPoint) : Build Nat :=
  match b.amounts.lookup outpoint with
  | some txOut => .ok txOut.value.toNat
  | none => .error (.panic "no entry found for key")

/-- The dust limit of the change address that is used next. -/
def changeDustLimit : Build Nat :=
  match b.unusedChangeAddresses.getLast? with
  | some address => .ok (minimalNonDust address.scriptPubkey)
  | none => .error (.panic "called `Option::unwrap()` on a `None` value")

/-- `unused_change_addresses.pop()`. -/
def popChangeAddress : Build (Address × TransactionBuilder) :=
  match b.unusedChangeAddresses.getLast? with
  | some address =>
    .ok (address, { b with unusedChangeAddresses := b.unusedChangeAddresses.dropLast })
  | none => .error (.panic "not enough change addresses")

/-- The walk over the inputs up to the outgoing sat. -/
def satOffsetFrom (message : String) (satOffset : Nat) : List OutPoint → Build Nat
  | [] => .error (.panic message)
  | outpoint :: rest =>
    if outpoint = b.outgoing.outpoint then
      addU64 satOffset b.outgoing.offset
    else do
      let value ← b.amountOf outpoint
      let satOffset ← addU64 satOffset value
      satOffsetFrom message satOffset rest

def calculateSatOffset : Build Nat :=
  b.satOffsetFrom "Could not find outgoing sat in inputs" 0 b.inputs

/-- An input under the size of its signature. -/
def inputOf (witness : List Bytes) (outpoint : OutPoint) : TxIn := ⟨outpoint, [], 0xfffffffd, witness⟩

def signature : Bytes := List.replicate schnorrSignatureSize 0

def estimateVbytesWith (inputs : Nat) (outputs : List Output) : Nat :=
  (Transaction.mk 2 0 (List.replicate inputs (inputOf [signature] OutPoint.null))
    (outputs.map Output.txOut)).vsize

def estimateVbytes : Nat := estimateVbytesWith b.inputs.length b.outputs

def estimateFee : Nat := b.feeRate.fee b.estimateVbytes

/-! ### Selection of cardinal UTXOs -/

def isCardinal (utxo : OutPoint) : Bool :=
  !(utxo ∈ b.runicUtxos || b.inscriptions.keys.any (fun satpoint => satpoint.outpoint = utxo) ||
    utxo ∈ b.lockedUtxos)

def absDiff (a b : Nat) : Nat := max a b - min a b

/-- A UTXO beside the best one before it. -/
def betterMatch (targetValue : Nat) (preferUnder : Bool) (bestMatch : Option (OutPoint × Nat))
    (utxo : OutPoint) (currentValue : Nat) : OutPoint × Nat :=
  let best := bestMatch.getD (utxo, currentValue)
  let bestValue := best.2
  let isCloser := absDiff currentValue targetValue < absDiff bestValue targetValue
  let notPreferenceButCloser :=
    if preferUnder then targetValue < bestValue ∧ isCloser else bestValue < targetValue ∧ isCloser
  let isPreferenceAndCloser :=
    if preferUnder then currentValue ≤ targetValue ∧ isCloser
    else targetValue ≤ currentValue ∧ isCloser
  let newlyMeetsPreference :=
    if preferUnder then targetValue < bestValue ∧ currentValue ≤ targetValue
    else bestValue < targetValue ∧ targetValue ≤ currentValue
  if isPreferenceAndCloser ∨ notPreferenceButCloser ∨ newlyMeetsPreference then
    (utxo, currentValue)
  else
    best

/-- The loop of `select_cardinal_utxo`. -/
def bestMatchFrom (targetValue : Nat) (preferUnder : Bool) (bestMatch : Option (OutPoint × Nat)) :
    List OutPoint → Build (Option (OutPoint × Nat))
  | [] => .ok bestMatch
  | utxo :: rest =>
    if b.isCardinal utxo then do
      let currentValue ← b.amountOf utxo
      bestMatchFrom targetValue preferUnder
        (some (betterMatch targetValue preferUnder bestMatch utxo currentValue)) rest
    else
      bestMatchFrom targetValue preferUnder bestMatch rest

def selectCardinalUtxo (targetValue : Nat) (preferUnder : Bool) :
    Build ((OutPoint × Nat) × TransactionBuilder) := do
  let bestMatch ← b.bestMatchFrom targetValue preferUnder none b.utxos
  let (utxo, value) ← okOr bestMatch (.err .notEnoughCardinalUtxos)
  return ((utxo, value), { b with utxos := b.utxos.filter (· ≠ utxo) })

/-! ### Stages -/

/-- No other inscription lies within the dust limit of the outgoing sat. -/
def checkInscriptions (outgoing : SatPoint) (dustLimit : Nat) :
    List (Σ _ : SatPoint, List InscriptionId) → Build Unit
  | [] => .ok ()
  | ⟨inscribed, ids⟩ :: rest =>
    if outgoing.outpoint = inscribed.outpoint ∧ outgoing.offset ≠ inscribed.offset then do
      let limit ← addU64 inscribed.offset dustLimit
      if outgoing.offset < limit then
        .error (.err (.utxoContainsAdditionalInscriptions outgoing inscribed ids))
      else
        checkInscriptions outgoing dustLimit rest
    else
      checkInscriptions outgoing dustLimit rest

def selectOutgoing : Build TransactionBuilder := do
  let dustLimit ← b.changeDustLimit
  checkInscriptions b.outgoing dustLimit b.inscriptions.entries.reverse
  let txOut ← okOr (b.amounts.lookup b.outgoing.outpoint) (.err (.notInWallet b.outgoing))
  let amount := txOut.value.toNat
  if amount ≤ b.outgoing.offset then do
    let maximum ← okOr (checkedSub amount 1) (.panic "attempt to subtract with overflow")
    .error (.err (.outOfRange b.outgoing maximum))
  else
    return { b with
      utxos := b.utxos.filter (· ≠ b.outgoing.outpoint)
      inputs := b.inputs ++ [b.outgoing.outpoint]
      outputs := b.outputs ++ [⟨amount, b.recipient⟩] }

def alignOutgoing : Build TransactionBuilder := do
  assert (b.outputs.length = 1) "invariant: only one output"
  assert (b.outputs.head?.map Output.scriptPubkey = some b.recipient)
    "invariant: first output is recipient"
  let satOffset ← b.calculateSatOffset
  if satOffset = 0 then
    return b
  else do
    let (address, b) ← b.popChangeAddress
    let outputs ← updateLast "no output" (subAmount · satOffset)
      (⟨satOffset, address.scriptPubkey⟩ :: b.outputs)
    return { b with outputs }

/-- The loop of `pad_alignment_output`: each round takes a UTXO, so the fuel is never used up. -/
def padFrom (dustLimit : Nat) : Nat → TransactionBuilder → Build TransactionBuilder
  | 0, _ => .error (.panic "out of UTXOs")
  | fuel + 1, b =>
    match b.outputs with
    | [] => .error (.panic "index out of bounds: the len is 0 but the index is 0")
    | first :: rest =>
      if first.value < dustLimit then do
        let ((utxo, size), b) ← b.selectCardinalUtxo (dustLimit - first.value) true
        let value ← addAmount first.value size
        padFrom dustLimit fuel { b with
          inputs := utxo :: b.inputs
          outputs := ⟨value, first.scriptPubkey⟩ :: rest }
      else
        return b

def padAlignmentOutput : Build TransactionBuilder :=
  match b.outputs with
  | [] => .error (.panic "index out of bounds: the len is 0 but the index is 0")
  | first :: _ =>
    if first.scriptPubkey = b.recipient then
      return b
    else do
      let dustLimit ← b.changeDustLimit
      padFrom dustLimit (b.utxos.length + 1) b

/-- The loop of `add_value`: each round takes a UTXO, so the fuel is never used up. -/
def addFrom (additionalFee : Nat) : Nat → Nat → TransactionBuilder → Build TransactionBuilder
  | 0, _, _ => .error (.panic "out of UTXOs")
  | fuel + 1, deficit, b =>
    if 0 < deficit then do
      let needed ← okOr (checkedAdd deficit additionalFee) (.err .valueOverflow)
      let ((utxo, value), b) ← b.selectCardinalUtxo needed false
      let benefit ← okOr (checkedSub value additionalFee) (.err .notEnoughCardinalUtxos)
      let outputs ← updateLast "called `Option::unwrap()` on a `None` value" (addAmount · value)
        b.outputs
      addFrom additionalFee fuel (if deficit < benefit then 0 else deficit - benefit) { b with
        inputs := b.inputs ++ [utxo]
        outputs }
    else
      return b

/-- The last output. -/
def lastOutput : Build Output :=
  okOr b.outputs.getLast? (.panic "called `Option::unwrap()` on a `None` value")

def addValue : Build TransactionBuilder := do
  let estimatedFee := b.estimateFee
  let last ← b.lastOutput
  let minValue := match b.target with
    | .postage => minimalNonDust last.scriptPubkey
    | .value value => value
    | .exactPostage postage => postage
  let total ← okOr (checkedAdd minValue estimatedFee) (.err .valueOverflow)
  match checkedSub total last.value with
  | some deficit =>
    addFrom (b.feeRate.fee additionalInputVbytes) (b.utxos.length + 1) deficit b
  | none => return b

/-- The most that the recipient may get, and what it gets otherwise. -/
def stripLimits (target : Target) : Nat × Nat :=
  match target with
  | .exactPostage postage => (postage, postage)
  | .postage => (maxPostage, targetPostage)
  | .value value => (value, value)

def stripValue : Build TransactionBuilder := do
  let satOffset ← b.calculateSatOffset
  let totalOutputAmount ← sumU64 (b.outputs.map Output.value)
  let _ ← okOr (b.outputs.find? fun output => output.scriptPubkey = b.recipient)
    (.panic "couldn't find output that contains the index")
  let value ← subAmount totalOutputAmount satOffset
  match checkedSub value b.estimateFee with
  | none => return b
  | some excess =>
    let (max, target) := stripLimits b.target
    if max < excess then do
      let stripped ← okOr (checkedSub value target)
        (.panic "called `Option::unwrap()` on a `None` value")
      let dustLimit ← b.changeDustLimit
      let needed ← addAmount dustLimit
        (b.feeRate.fee (b.estimateVbytes + additionalOutputVbytes))
      if needed < stripped then do
        let outputs ← updateLast "no outputs found" (fun _ => .ok target) b.outputs
        let (address, b) ← b.popChangeAddress
        let change ← subAmount value target
        return { b with outputs := outputs ++ [⟨change, address.scriptPubkey⟩] }
      else
        return b
    else
      return b

def deductFee : Build TransactionBuilder := do
  let satOffset ← b.calculateSatOffset
  let fee := b.estimateFee
  let totalOutputAmount ← sumU64 (b.outputs.map Output.value)
  let last ← okOr b.outputs.getLast? (.panic "No output to deduct fee from")
  let remaining ← okOr (checkedSub totalOutputAmount fee)
    (.panic "called `Option::unwrap()` on a `None` value")
  assert (satOffset < remaining) "invariant: deducting fee does not consume sat"
  assert (fee ≤ last.value) "invariant: last output can pay fee"
  let outputs ← updateLast "No output to deduct fee from" (subAmount · fee) b.outputs
  return { b with outputs }

/-! ### The transaction and its checks -/

/-- The output that the outgoing sat is found in. -/
def checkRecipientOutput (recipient : Bytes) (satOffset : Nat) :
    Nat → List Output → Build Unit
  | _, [] => .error (.panic "invariant: outgoing sat is found in outputs")
  | outputEnd, output :: rest => do
    let outputEnd ← addU64 outputEnd output.value
    if satOffset < outputEnd then
      assert (output.scriptPubkey = recipient) "invariant: outgoing sat is sent to recipient"
    else
      checkRecipientOutput recipient satOffset outputEnd rest

/-- The value of the recipient's output beside the target. -/
def checkTarget (value : Nat) : Build Unit := do
  let slop := b.feeRate.fee additionalOutputVbytes
  match b.target with
  | .postage => do
    let limit ← addAmount maxPostage slop
    assert (value ≤ limit) "invariant: excess postage is stripped"
  | .exactPostage postage => do
    let limit ← addAmount postage slop
    assert (value ≤ limit) "invariant: excess postage is stripped"
  | .value target => do
    let excess ← okOr (checkedSub value target)
      (.panic "called `Option::unwrap()` on a `None` value")
    let limit ← addAmount
      ((b.changeAddresses.map fun address => minimalNonDust address.scriptPubkey).max?.getD 0) slop
    assert (excess ≤ limit) "invariant: output equals target value"

/-- Each output goes to the recipient or to a change address. -/
def checkOutputs (satOffset : Nat) : Nat → List Output → Build Unit
  | _, [] => .ok ()
  | offset, output :: rest => do
    if output.scriptPubkey = b.recipient then do
      b.checkTarget output.value
      assert (offset = satOffset) "invariant: sat is at first position in recipient output"
    else
      assert (b.changeAddresses.any fun address => address.scriptPubkey = output.scriptPubkey)
        "invariant: all outputs are either change or recipient: unrecognized output"
    let offset ← addU64 offset output.value
    checkOutputs satOffset offset rest

/-- What the inputs have more than the outputs. -/
def actualFee : Build Nat := do
  let inputs ← b.inputs.foldlM (fun fee outpoint => do addAmount fee (← b.amountOf outpoint)) 0
  b.outputs.foldlM (fun fee output => subAmount fee output.value) inputs

def transaction (witness : List Bytes) : Transaction :=
  ⟨2, 0, b.inputs.map (inputOf witness), b.outputs.map Output.txOut⟩

def build : Build Transaction := do
  assert ((b.amounts.entries.filter fun entry => entry.1 = b.outgoing.outpoint ∧
    b.outgoing.offset < entry.2.value.toNat).length = 1)
    "invariant: outgoing sat is contained in utxos"
  assert ((b.inputs.filter fun outpoint => outpoint = b.outgoing.outpoint).length = 1)
    "invariant: inputs spend outgoing sat"
  let satOffset ← b.satOffsetFrom "invariant: outgoing sat is found in inputs" 0 b.inputs
  checkRecipientOutput b.recipient satOffset 0 b.outputs
  assert ((b.outputs.filter fun output => output.scriptPubkey = b.recipient).length = 1)
    "invariant: recipient address appears exactly once in outputs"
  assert (b.changeAddresses.all fun address =>
    (b.outputs.filter fun output => output.scriptPubkey = address.scriptPubkey).length ≤ 1)
    "invariant: change addresses appear at most once in outputs"
  b.checkOutputs satOffset 0 b.outputs
  let actualFee ← b.actualFee
  let expectedFee := b.feeRate.fee (b.transaction [signature]).vsize
  assert (actualFee = expectedFee) "invariant: fee estimation is correct"
  assert (b.outputs.all fun output => minimalNonDust output.scriptPubkey ≤ output.value)
    "invariant: all outputs are above dust limit"
  return b.transaction []

/-- The checks of the recipient in front of the stages. -/
def checkRecipient : Build Unit :=
  if isOpReturn b.recipient then
    .ok ()
  else
    match Address.fromScript b.recipient b.network with
    | .error source => .error (.err (.invalidAddress source))
    | .ok recipientAsAddress =>
      if recipientAsAddress ∈ b.changeAddresses then
        .error (.err (.duplicateAddress recipientAsAddress))
      else
        let dustValue := minimalNonDust b.recipient
        match b.target with
        | .postage => .ok ()
        | .value outputValue | .exactPostage outputValue =>
          if outputValue < dustValue then .error (.err (.dust outputValue dustValue)) else .ok ()

def buildTransaction : Build Transaction :=
  match b.changeAddresses with
  | [] => .error (.panic "called `Option::unwrap()` on a `None` value")
  | [address] => .error (.err (.duplicateAddress address))
  | _ => do
    b.checkRecipient
    let b ← b.selectOutgoing
    let b ← b.alignOutgoing
    let b ← b.padAlignmentOutput
    let b ← b.addValue
    let b ← b.stripValue
    let b ← b.deductFee
    b.build

end TransactionBuilder

end Lord.Wallet
