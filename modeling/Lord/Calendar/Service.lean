import Lord.Calendar.Proof
import Lord.Commit.Upgrade
import Lord.Lib.SortedMap
import Mathlib.Data.String.Basic

/-! The calendar: a queue of digests, a store of batches and proofs, and their snapshot on disk. -/

namespace Lord.Calendar

open Ots Commit

structure DigestQueue where
  pending : List Bytes32

namespace DigestQueue

def enqueue (queue : DigestQueue) (digest : Bytes32) : DigestQueue :=
  if digest ∈ queue.pending then queue else ⟨queue.pending ++ [digest]⟩

def drainBatch (queue : DigestQueue) (max : Nat) : List Bytes32 × DigestQueue :=
  (queue.pending.take max, ⟨queue.pending.drop max⟩)

/-- The digests of `priority` that are still pending, in front of those in `batch` at most `max`. -/
def drainPriority (queue : DigestQueue) (batch : List Bytes32) (max : Nat) :
    List Bytes32 → List Bytes32 × DigestQueue
  | [] => (batch, queue)
  | digest :: rest =>
    if max ≤ batch.length then
      (batch, queue)
    else if digest ∈ queue.pending then
      drainPriority ⟨queue.pending.erase digest⟩ (batch ++ [digest]) max rest
    else
      drainPriority queue batch max rest

/-- Drain up to `max` digests, preferring `priority` digests that are still pending. -/
def drainBatchPrioritized (queue : DigestQueue) (priority : List Bytes32) (max : Nat) :
    List Bytes32 × DigestQueue :=
  let preferred := drainPriority queue [] max priority
  let rest := preferred.2.drainBatch (max - preferred.1.length)
  (preferred.1 ++ rest.1, rest.2)

@[simp] theorem mem_enqueue {queue : DigestQueue} {digest d : Bytes32} :
    d ∈ (queue.enqueue digest).pending ↔ d ∈ queue.pending ∨ d = digest := by
  unfold enqueue
  split
  · rename_i hmem
    constructor
    · exact .inl
    · rintro (h | rfl)
      · exact h
      · exact hmem
  · simp

theorem mem_foldl_enqueue {queue : DigestQueue} {batch : List Bytes32} {d : Bytes32} :
    d ∈ (batch.foldl enqueue queue).pending ↔ d ∈ queue.pending ∨ d ∈ batch := by
  induction batch generalizing queue with
  | nil => simp
  | cons digest rest ih =>
    rw [List.foldl_cons, ih, mem_enqueue, List.mem_cons]
    exact or_assoc

/-- A drain loses no digest. -/
theorem mem_drainBatch {queue : DigestQueue} {max : Nat} {d : Bytes32} (h : d ∈ queue.pending) :
    d ∈ (queue.drainBatch max).1 ∨ d ∈ (queue.drainBatch max).2.pending := by
  rw [← List.take_append_drop max queue.pending] at h
  exact List.mem_append.mp h

theorem mem_drainPriority {queue : DigestQueue} {batch : List Bytes32} {max : Nat}
    {priority : List Bytes32} {d : Bytes32} (h : d ∈ batch ∨ d ∈ queue.pending) :
    d ∈ (queue.drainPriority batch max priority).1 ∨
      d ∈ (queue.drainPriority batch max priority).2.pending := by
  induction priority generalizing queue batch with
  | nil => exact h
  | cons digest rest ih =>
    rw [drainPriority]
    split
    · exact h
    split
    · refine ih ?_
      rcases h with hbatch | hqueue
      · exact .inl (List.mem_append_left _ hbatch)
      · by_cases hd : d = digest
        · exact .inl (List.mem_append_right _ (by simp [hd]))
        · exact .inr ((List.mem_erase_of_ne hd).mpr hqueue)
    · exact ih h

theorem mem_drainBatchPrioritized {queue : DigestQueue} {priority : List Bytes32} {max : Nat}
    {d : Bytes32} (h : d ∈ queue.pending) :
    d ∈ (queue.drainBatchPrioritized priority max).1 ∨
      d ∈ (queue.drainBatchPrioritized priority max).2.pending := by
  unfold drainBatchPrioritized
  dsimp only
  rw [List.mem_append]
  have hprefer : d ∈ (queue.drainPriority [] max priority).1 ∨
      d ∈ (queue.drainPriority [] max priority).2.pending := mem_drainPriority (.inr h)
  rcases hprefer with hbatch | hqueue
  · exact .inl (.inl hbatch)
  · rcases mem_drainBatch hqueue with hbatch | hrest
    · exact .inl (.inr hbatch)
    · exact .inr hrest

end DigestQueue

structure AnchorRecord where
  height : UInt32
  txid : String
  merkleRoot : String
  anchoredAt : UInt64
  deriving Repr, DecidableEq

structure PendingAnchor where
  txid : String
  merkleRoot : String
  batch : List Bytes32
  broadcastAt : UInt64
  deriving Repr, DecidableEq

/-- The proofs by the hex of their digest, and the batches by the hex of their merkle root. -/
structure CalendarStore where
  proofs : SortedMap String Bytes
  batches : SortedMap String (List Bytes32)
  pendingAnchor : Option PendingAnchor
  lastAnchor : Option AnchorRecord
  lastAnchorSkippedReason : Option String

namespace CalendarStore

def empty : CalendarStore := ⟨.empty, .empty, none, none, none⟩

def putProof (store : CalendarStore) (digest : Bytes32) (proof : Bytes) : CalendarStore :=
  { store with proofs := store.proofs.insert (Hex.encode digest.val) proof }

def getProof (store : CalendarStore) (digest : Bytes32) : Option Bytes :=
  store.proofs.get (Hex.encode digest.val)

end CalendarStore

/-! ### The snapshot on disk -/

structure CalendarState where
  queue : DigestQueue
  store : CalendarStore

/-- The files of a calendar directory, as what they parse to. -/
structure CalendarFiles where
  /-- `state.json`. -/
  state : Option CalendarState
  /-- `pending.json` of an older calendar. -/
  pending : Option DigestQueue
  /-- `store.json` of an older calendar. -/
  store : Option CalendarStore

/-- Load queue and store, preferring the combined snapshot. -/
def loadState (files : CalendarFiles) : CalendarState :=
  match files.state with
  | some state => state
  | none => ⟨files.pending.getD ⟨[]⟩, files.store.getD .empty⟩

/-- Atomically persist queue and store in a single file: a write that fails leaves the old one. -/
def saveState (files : CalendarFiles) (write : Result Unit) (path : String)
    (state : CalendarState) : Result Unit × CalendarFiles :=
  match write.context s!"failed to write `{path}/state.json`" with
  | .ok () => (.ok (), { files with state := some state })
  | .error err => (.error err, files)

/-! ### The service -/

/-- What the handlers and the anchor worker share, with the calendar's directory. -/
structure CalendarInner where
  calendarDir : String
  uri : String
  /-- The queue and the store in memory. -/
  state : CalendarState
  files : CalendarFiles

/-- A slice as an array of thirty-two bytes. -/
def toArray32 (digest : Bytes) : Option Bytes32 :=
  if h : digest.length = 32 then some ⟨digest, h⟩ else none

variable [OtsCodec]

/-- Accept a raw 32-byte SHA-256 digest and return a detached OTS proof. -/
def submitDigest (inner : CalendarInner) (write : Result Unit) (digest : Bytes) :
    Result Bytes × CalendarInner :=
  match toArray32 digest with
  | none => (.error "digest must be exactly 32 bytes", inner)
  | some digest =>
    match inner.state.store.getProof digest with
    | some existing => (.ok existing, inner)
    | none =>
      let state := { inner.state with queue := inner.state.queue.enqueue digest }
      match saveState inner.files write inner.calendarDir state with
      | (.error err, files) => (.error err, { inner with state, files })
      | (.ok (), files) => (pendingProofBytes digest.val inner.uri, { inner with state, files })

variable [Digests]

/-- The first batch with the digest, and its place there. -/
def findBatch (store : CalendarStore) (digest : Bytes32) : Option (List Bytes32 × Nat) :=
  store.batches.values.findSome? fun batch =>
    (batch.findIdx? (· == digest)).map fun index => (batch, index)

/-- `ProofBuild` around a failed build. -/
def proofBuild (proof : Result Bytes) : Except UpgradeError Bytes :=
  match proof with
  | .ok proof => .ok proof
  | .error err => .error (.proofBuild err)

/-- Return the best known proof for a digest (upgraded when anchored). -/
def upgradeDigest (inner : CalendarInner) (digest : Bytes) : Except UpgradeError Bytes :=
  match toArray32 digest with
  | none => .error (.proofBuild "digest must be exactly 32 bytes")
  | some digest =>
    match inner.state.store.getProof digest with
    | some proof => .ok proof
    | none =>
      match findBatch inner.state.store digest with
      | some (batch, index) =>
        proofBuild (merkleBatchProofBytes digest.val (batch.map Subtype.val) index inner.uri)
      | none =>
        if digest ∈ inner.state.queue.pending then
          proofBuild (pendingProofBytes digest.val inner.uri)
        else
          .error .notFound

/-! ### The digests that an upgrade finds -/

/-- The digest has a proof, or stands in a batch or in the queue. -/
def CalendarState.Knows (state : CalendarState) (digest : Bytes32) : Prop :=
  (state.store.getProof digest).isSome ∨ (∃ batch ∈ state.store.batches.values, digest ∈ batch) ∨
    digest ∈ state.queue.pending

omit [OtsCodec] [Digests] in
theorem findBatch_eq_none {store : CalendarStore} {digest : Bytes32} :
    findBatch store digest = none ↔ ¬∃ batch ∈ store.batches.values, digest ∈ batch := by
  simp only [findBatch, List.findSome?_eq_none_iff, Option.map_eq_none_iff,
    List.findIdx?_eq_none_iff, beq_eq_false_iff_ne, not_exists, not_and]
  constructor
  · intro h batch hbatch hmem
    exact h batch hbatch digest hmem rfl
  · rintro h batch hbatch _ hmem rfl
    exact h batch hbatch hmem

/-- An upgrade finds the digests that the calendar knows. -/
theorem upgradeDigest_notFound_iff {inner : CalendarInner} {digest : Bytes32} :
    upgradeDigest inner digest.val = .error .notFound ↔ ¬inner.state.Knows digest := by
  have harray : toArray32 digest.val = some digest := dif_pos digest.property
  have hbuild : ∀ proof : Result Bytes, proofBuild proof ≠ .error .notFound := by
    rintro (err | proof) <;> simp [proofBuild]
  unfold upgradeDigest CalendarState.Knows
  rw [harray]
  dsimp only
  cases hproof : inner.state.store.getProof digest with
  | some proof => simp
  | none =>
    cases hbatch : findBatch inner.state.store digest with
    | some found =>
      obtain ⟨batch, index⟩ := found
      have hknown : ∃ batch ∈ inner.state.store.batches.values, digest ∈ batch := by
        by_contra hnone
        rw [findBatch_eq_none.mpr hnone] at hbatch
        cases hbatch
      simp [hbuild, hknown]
    | none =>
      have hnone := findBatch_eq_none.mp hbatch
      by_cases hqueue : digest ∈ inner.state.queue.pending
      · simp [hqueue, hbuild]
      · simp [hqueue, hnone]

end Lord.Calendar
