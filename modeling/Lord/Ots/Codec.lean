import Lord.Ots.Timestamp

/-! The serialized form of a detached timestamp file.  The crate writes the operations and the
attestations of a tree and no outputs: its parser computes each output by executing the step. -/

namespace Lord.Ots

/-- `DetachedTimestampFile::to_writer` and `DetachedTimestampFile::from_reader`. -/
class OtsCodec where
  toWriter : DetachedTimestampFile → Result Bytes
  fromReader : Bytes → Result DetachedTimestampFile

section

variable [Digests]

mutual

/-- The tree with every output computed from the running digest. -/
def Step.reexecute : Step → Bytes → Step
  | .mk (.op op) _ next, digest => .mk (.op op) (op.execute digest)
      (reexecuteList next (op.execute digest))
  | .mk .fork _ next, digest => .mk .fork digest (reexecuteList next digest)
  | .mk (.attestation attestation) _ next, digest =>
    .mk (.attestation attestation) digest (reexecuteList next digest)

def Step.reexecuteList : List Step → Bytes → List Step
  | [], _ => []
  | child :: rest, digest => child.reexecute digest :: reexecuteList rest digest

end

end

/-- The tags in front of the attestations that the crate knows. -/
def bitcoinTag : Bytes := [0x05, 0x88, 0x96, 0x0d, 0x73, 0xd7, 0x19, 0x01]

def pendingTag : Bytes := [0x83, 0xdf, 0xe3, 0x0d, 0x2e, 0xf9, 0x0c, 0x8e]

/-- The parser reads a URI of at most a thousand letters, digits and marks of an address. -/
def validUri (uri : String) : Bool :=
  uri.toList.length ≤ 1000 && uri.toList.all fun c => c.isAlphanum || c ∈ ['.', '-', '_', '/', ':']

/-- An attestation that is read back as itself. -/
def Attestation.WellFormed : Attestation → Prop
  | bitcoin _ => True
  | pending uri => validUri uri = true
  | unknown tag _ => tag.length = 8 ∧ tag ≠ bitcoinTag ∧ tag ≠ pendingTag

/-- The longest data of an operation that the parser reads. -/
def maxOpLength : Nat := 4096

/-- The deepest tree that the parser reads. -/
def recursionLimit : Nat := 256

/-- The data of an operation is not empty and not too long. -/
def Op.WellFormed : Op → Prop
  | append data => data ≠ [] ∧ data.length ≤ maxOpLength
  | prepend data => data ≠ [] ∧ data.length ≤ maxOpLength
  | _ => True

instance (op : Op) : Decidable op.WellFormed :=
  match op with
  | .append _ | .prepend _ => inferInstanceAs (Decidable (_ ∧ _))
  | .sha1 | .sha256 | .ripemd160 | .hexlify | .reverse => .isTrue trivial

mutual

/-- A tree as the crate writes it: an operation has one successor, a fork at least two of which the
last is not a fork, and an attestation none. -/
def Step.WellShaped : Step → Prop
  | .mk (.op op) _ next => op.WellFormed ∧ next.length = 1 ∧ wellShapedList next
  | .mk .fork _ next =>
    2 ≤ next.length ∧ (∀ last, next.getLast? = some last → last.data ≠ .fork) ∧ wellShapedList next
  | .mk (.attestation attestation) _ next => attestation.WellFormed ∧ next = []

def Step.wellShapedList : List Step → Prop
  | [] => True
  | child :: rest => child.WellShaped ∧ wellShapedList rest

end

theorem Step.wellShapedList_iff {next : List Step} :
    wellShapedList next ↔ ∀ child ∈ next, child.WellShaped := by
  induction next with
  | nil => simp [wellShapedList]
  | cons child rest ih => simp [wellShapedList, ih]

mutual

/-- The number of steps on the longest path. -/
def Step.depth : Step → Nat
  | .mk _ _ next => depthList next + 1

def Step.depthList : List Step → Nat
  | [] => 0
  | child :: rest => max child.depth (depthList rest)

end

/-- What is relied on of the crate: a well-shaped tree over a digest of its type is written, and,
unless it is too deep, read back with its outputs computed; and there is no file in no bytes. -/
class LawfulOtsCodec [Digests] [OtsCodec] : Prop where
  read_write : ∀ file : DetachedTimestampFile,
    file.timestamp.startDigest.length = file.digestType.digestLen →
    file.timestamp.firstStep.WellShaped → file.timestamp.firstStep.depth ≤ recursionLimit →
    ∃ bytes, OtsCodec.toWriter file = .ok bytes ∧
      OtsCodec.fromReader bytes = .ok
        ⟨file.digestType, file.timestamp.startDigest,
          file.timestamp.firstStep.reexecute file.timestamp.startDigest⟩
  read_nil : ∀ file : DetachedTimestampFile, OtsCodec.fromReader [] ≠ .ok file

end Lord.Ots
