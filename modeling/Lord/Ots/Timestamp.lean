import Lord.Lib.Hex

/-! The data model of the OpenTimestamps crate: operations, attestations and step trees. -/

namespace Lord.Ots

/-- The digest functions that an operation may apply. -/
class Digests where
  sha1 : Bytes → Bytes
  sha256 : Bytes → Bytes
  ripemd160 : Bytes → Bytes
  length_sha256 : ∀ input, (sha256 input).length = 32

/-- An operation of a timestamp. -/
inductive Op where
  | sha1
  | sha256
  | ripemd160
  | hexlify
  | reverse
  | append (data : Bytes)
  | prepend (data : Bytes)
  deriving Repr, DecidableEq

/-- `Op::execute`. -/
def Op.execute [Digests] (op : Op) (input : Bytes) : Bytes :=
  match op with
  | .sha1 => Digests.sha1 input
  | .sha256 => Digests.sha256 input
  | .ripemd160 => Digests.ripemd160 input
  | .hexlify => (Hex.digits input).map fun c => UInt8.ofNat c.toNat
  | .reverse => input.reverse
  | .append data => input ++ data
  | .prepend data => data ++ input

/-- An attestation. The tag of an unknown one is eight bytes. -/
inductive Attestation where
  | bitcoin (height : UInt64)
  | pending (uri : String)
  | unknown (tag : Bytes) (data : Bytes)
  deriving Repr, DecidableEq

/-- What a step does: branch, apply an operation, or attest to the running digest. -/
inductive StepData where
  | fork
  | op (op : Op)
  | attestation (attestation : Attestation)
  deriving Repr, DecidableEq

/-- A step with its claimed output and the steps after it. -/
inductive Step where
  | mk (data : StepData) (output : Bytes) (next : List Step)

namespace Step

def data : Step → StepData
  | mk data _ _ => data

def output : Step → Bytes
  | mk _ output _ => output

def next : Step → List Step
  | mk _ _ next => next

@[simp] theorem data_mk {d : StepData} {o : Bytes} {n : List Step} : (mk d o n).data = d := rfl
@[simp] theorem output_mk {d : StepData} {o : Bytes} {n : List Step} : (mk d o n).output = o := rfl
@[simp] theorem next_mk {d : StepData} {o : Bytes} {n : List Step} : (mk d o n).next = n := rfl

/-- Induction on step trees: the hypothesis holds of every successor. -/
@[elab_as_elim, induction_eliminator]
theorem induct {motive : Step → Prop}
    (mk : ∀ data output next, (∀ child ∈ next, motive child) → motive (mk data output next))
    (step : Step) : motive step :=
  Step.rec (motive_1 := motive) (motive_2 := fun next => ∀ child ∈ next, motive child)
    mk (by simp) (by
      intro head tail hhead htail child hchild
      rcases List.mem_cons.mp hchild with rfl | hchild
      · exact hhead
      · exact htail child hchild) step

end Step

mutual

/-- The number of steps of a tree. -/
def Step.size : Step → Nat
  | .mk _ _ next => sizeList next + 1

def Step.sizeList : List Step → Nat
  | [] => 0
  | child :: rest => child.size + sizeList rest

end

theorem Step.sizeList_eq_sum (next : List Step) : sizeList next = (next.map size).sum := by
  induction next with
  | nil => rfl
  | cons child rest ih => simp [sizeList, ih]

/-- A tree of steps over the digest it starts from. -/
structure Timestamp where
  startDigest : Bytes
  firstStep : Step

/-- The digest type a detached file declares. -/
inductive DigestType where
  | sha1
  | sha256
  | ripemd160
  deriving Repr, DecidableEq

/-- The length of a digest of the type. -/
def DigestType.digestLen : DigestType → Nat
  | sha1 => 20
  | sha256 => 32
  | ripemd160 => 20

/-- A timestamp with the type of its start digest. -/
structure DetachedTimestampFile where
  digestType : DigestType
  timestamp : Timestamp

end Lord.Ots
