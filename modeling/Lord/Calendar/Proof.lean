import Lord.Bitcoin.Block
import Lord.Calendar.Merkle
import Lord.Ots.Chain

/-! The proofs that the calendar builds: a pending attestation, the path of a digest through a batch
in front of one, and the path through a batch, an anchor transaction and its block. -/

namespace Lord.Calendar

open Ots Bitcoin

section

variable [OtsCodec]

def serializeProof (file : DetachedTimestampFile) : Result Bytes :=
  match OtsCodec.toWriter file with
  | .ok bytes => .ok bytes
  | .error err => .error s!"failed to serialize OTS proof: {err}"

def pendingProofBytes (digest : Bytes) (uri : String) : Result Bytes :=
  serializeProof ⟨.sha256, digest, .mk (.attestation (.pending uri)) digest []⟩

end

variable [Digests]

/-! ### The path through a batch -/

/-- The digest after a step of a path, and the operation with which the proof makes it. -/
def pathStep (current : Bytes) (entry : Bool × Bytes) : Bytes :=
  if entry.1 then catSha256d current entry.2 else catSha256d entry.2 current

def pathOp (entry : Bool × Bytes) : Op := if entry.1 then .append entry.2 else .prepend entry.2

/-- The nested steps of a path: each entry goes in front of what there is. -/
def nestPath (path : List (Bool × Bytes)) (current : Bytes) (next : List Step) : List Step :=
  match path with
  | [] => next
  | entry :: rest =>
    nestPath rest (pathStep current entry)
      [.mk (.op (pathOp entry)) (pathStep current entry) next]

section

variable [OtsCodec]

def merkleBatchProofBytes (digest : Bytes) (batchLeaves : List Bytes) (leafIndex : Nat)
    (uri : String) : Result Bytes := do
  let path ← okOr (merklePath batchLeaves leafIndex)
    s!"digest not in batch of {batchLeaves.length} leaves"
  let pending := Step.mk (.attestation (.pending uri)) digest []
  serializeProof
    ⟨.sha256, digest, (nestPath path.reverse digest [pending]).headD pending⟩

end

def merklePathSteps (digest : Bytes) (batchLeaves : List Bytes) (leafIndex : Nat) :
    Result Step := do
  let path ← okOr (merklePath batchLeaves leafIndex)
    s!"digest not in batch of {batchLeaves.length} leaves"
  okOr (nestPath path.reverse digest []).head? "digest not in batch merkle tree"

mutual

/-- Hang `tail` below the last step of a chain, or of the last branch of a tree. -/
def linkSteps (head tail : Step) : Step :=
  match head with
  | .mk data output next => .mk data output (linkLast next tail)

def linkLast (next : List Step) (tail : Step) : List Step :=
  match next with
  | [] => [tail]
  | [last] => [linkSteps last tail]
  | child :: sibling :: rest => child :: linkLast (sibling :: rest) tail

end

/-! ### The path through the anchor transaction -/

def txSerializedForTxid (tx : Transaction) : Bytes :=
  ({ tx with input := tx.input.map fun input => { input with witness := [] } } :
    Transaction).serialize

/-- `windows(n).position(..)`. -/
def windowPosition (needle bytes : Bytes) : Option Nat :=
  if bytes.length < needle.length then none
  else (List.range (bytes.length - needle.length + 1)).find? fun pos =>
    (bytes.drop pos).take needle.length == needle

/-- The outputs that operations have one after the other. -/
def outputs (ops : List Op) (current : Bytes) : List (Op × Bytes) :=
  match ops with
  | [] => []
  | op :: rest => (op, op.execute current) :: outputs rest (op.execute current)

def txCommitmentToTxidStep (commitment : Bytes) (tx : Transaction) : Result Step := do
  let serialized := txSerializedForTxid tx
  let pos ← okOr (windowPosition commitment serialized) "commitment not found in anchor transaction"
  let front := serialized.take pos
  let back := serialized.drop (pos + commitment.length)
  let ops := (if front.isEmpty then [] else [Op.prepend front]) ++
    (if back.isEmpty then [] else [Op.append back]) ++ [.sha256, .sha256]
  if executeAll ops commitment ≠ tx.computeTxid.val then
    .error "anchor tx inclusion proof does not reach txid"
  else
    okOr (Step.chain (outputs ops commitment) []).head? "no operation"

/-! ### The path through the block -/

/-- Each entry of the path goes in front of what there is, with both of its hashes. -/
def nestInclusion (path : List (Bool × Bytes)) (digest : Bytes) (childSteps : List Step) :
    List Step :=
  match path with
  | [] => childSteps
  | entry :: rest =>
    let concat := (pathOp entry).execute digest
    let hashedOnce := Op.sha256.execute concat
    let hashedTwice := Op.sha256.execute hashedOnce
    nestInclusion rest hashedTwice
      [.mk (.op (pathOp entry)) concat
        [.mk (.op .sha256) hashedOnce [.mk (.op .sha256) hashedTwice childSteps]]]

def inclusionPathSteps (leaf : Bytes) (path : List (Bool × Bytes)) : Result Step :=
  if path.isEmpty then
    .error "empty inclusion path"
  else
    okOr (nestInclusion path leaf []).head? "failed to build inclusion path"

def blockPathStep (digest : Bytes) (entry : Bool × Bytes) : Bytes :=
  if entry.1 then bitcoinMerklePair digest entry.2 else bitcoinMerklePair entry.2 digest

def blockMerklePathSteps (txid : Bytes) (block : Block) : Result Step := do
  let txids := block.txdata.map fun tx => tx.computeTxid.val
  let index ← okOr (txids.findIdx? (· == txid)) "anchor tx not in block"
  let path ← okOr (bitcoinTxMerklePath txids index) "failed to build block tx merkle path"
  if path.foldl blockPathStep txid ≠ block.header.merkleRoot.val then
    .error "block tx merkle path does not reach header merkle root"
  else
    inclusionPathSteps txid path

/-! ### The confirmed proof -/

/-- The steps from the digest to the id of the anchor transaction. -/
def stepsToTxid (startDigest commitment : Bytes) (batchLeaves : List Bytes) (leafIndex : Nat)
    (txidStep : Step) : Result Step :=
  if startDigest = commitment then
    .ok txidStep
  else do
    let merkle ← merklePathSteps startDigest batchLeaves leafIndex
    if merkle.output ≠ commitment then
      .error "merkle path does not reach batch commitment"
    else
      .ok (linkSteps merkle txidStep)

def bitcoinConfirmedProofBytes [OtsCodec] (startDigest commitment : Bytes)
    (batchLeaves : List Bytes) (leafIndex : Nat) (tx : Transaction) (block : Block)
    (height : UInt32) : Result Bytes := do
  let txidStep ← txCommitmentToTxidStep commitment tx
  let firstStep ← stepsToTxid startDigest commitment batchLeaves leafIndex txidStep
  let blockStep ← blockMerklePathSteps tx.computeTxid.val block
  let attestation := Step.mk (.attestation (.bitcoin height.toUInt64)) block.header.merkleRoot.val []
  serializeProof
    ⟨.sha256, startDigest, linkSteps (linkSteps firstStep blockStep) attestation⟩

end Lord.Calendar
