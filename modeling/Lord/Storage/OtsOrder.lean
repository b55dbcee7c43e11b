import Lord.Ots.Codec

/-! The order key of a proof: a breadth-first walk to the first attestation that records the child
index at each fork on the way. -/

namespace Lord.Storage

open Ots

/-- The key of a proof without an attestation leaf. -/
def noAttestationSentinel : Bytes := List.replicate 8 255

/-- The children of a fork with their paths; an index has to fit in one byte. -/
def forkChildren (path : Bytes) (next : List Step) : Outcome (List (Step × Bytes)) :=
  if next.length ≤ 256 then
    .ok (next.zipIdx.map fun (child, index) => (child, path ++ [UInt8.ofNat index]))
  else
    .error (.panic "OTS fork child index must fit in one byte for order key encoding")

/-- The number of steps in the trees of a queue. -/
def queueSize (queue : List (Step × Bytes)) : Nat := (queue.map fun entry => entry.1.size).sum

theorem queueSize_append (a b : List (Step × Bytes)) :
    queueSize (a ++ b) = queueSize a + queueSize b := by
  simp [queueSize]

theorem queueSize_forkChildren {path : Bytes} {next : List Step} {children : List (Step × Bytes)}
    (h : forkChildren path next = .ok children) : queueSize children = Step.sizeList next := by
  unfold forkChildren at h
  split at h
  · cases h
    have hfst : next.zipIdx.map (Step.size ∘ Prod.fst) = next.map Step.size := by
      rw [← List.map_map]
      simp
    simpa [queueSize, Step.sizeList_eq_sum, Function.comp_def] using congrArg List.sum hfst
  · cases h

/-- The walk of `order_key_from_timestamp` over its queue. -/
def walk (queue : List (Step × Bytes)) : Outcome Bytes :=
  match queue with
  | [] => .ok noAttestationSentinel
  | (.mk (.attestation _) _ _, path) :: _ => .ok path
  | (.mk .fork _ next, path) :: rest =>
    match _h : forkChildren path next with
    | .error fault => .error fault
    | .ok children => walk (rest ++ children)
  | (.mk (.op _) _ [], _) :: rest => walk rest
  | (.mk (.op _) _ (child :: _), path) :: rest => walk (rest ++ [(child, path)])
termination_by queueSize queue
decreasing_by
  · rw [queueSize_append, queueSize_forkChildren _h]
    simp [queueSize, Step.size]
    omega
  · simp [queueSize, Step.size]
  · simp [queueSize, Step.size, Step.sizeList]
    omega

def orderKeyFromTimestamp (firstStep : Step) : Outcome Bytes := walk [(firstStep, [])]

def orderKeyFromProofBytes [OtsCodec] (proof : Bytes) : Outcome Bytes :=
  match (Result.context (OtsCodec.fromReader proof) "failed to parse OTS proof").outcome with
  | .ok file => orderKeyFromTimestamp file.timestamp.firstStep
  | .error fault => .error fault

end Lord.Storage
