import Lord.Ltp.Inbound

/-! The local mempool of the gossip network: three queues in memory, and a file that is rewritten whole
with them. -/

namespace Lord.Ltp

open Ots

inductive LtpQueueKind where
  | commitment
  | storage
  | market
  deriving Repr, DecidableEq

instance : ToString LtpQueueKind where
  toString
    | .commitment => "Commitment"
    | .storage => "Storage"
    | .market => "Market"

structure LtpMempoolEntry where
  baoRoot : Bytes32
  startDigest : Bytes32
  enqueuedAt : UInt64
  priority : UInt32
  queue : LtpQueueKind
  deriving Repr, DecidableEq

structure MempoolSnapshot where
  commitment : List LtpMempoolEntry
  storage : List LtpMempoolEntry
  market : List LtpMempoolEntry
  deriving Repr, DecidableEq

namespace MempoolSnapshot

def empty : MempoolSnapshot := ⟨[], [], []⟩

def queue (snapshot : MempoolSnapshot) : LtpQueueKind → List LtpMempoolEntry
  | .commitment => snapshot.commitment
  | .storage => snapshot.storage
  | .market => snapshot.market

/-- `queue_mut`: the snapshot with other entries in a queue. -/
def setQueue (snapshot : MempoolSnapshot) (kind : LtpQueueKind) (entries : List LtpMempoolEntry) :
    MempoolSnapshot :=
  match kind with
  | .commitment => { snapshot with commitment := entries }
  | .storage => { snapshot with storage := entries }
  | .market => { snapshot with market := entries }

@[simp] theorem queue_setQueue_self (snapshot : MempoolSnapshot) (kind : LtpQueueKind)
    (entries : List LtpMempoolEntry) : (snapshot.setQueue kind entries).queue kind = entries := by
  cases kind <;> rfl

theorem queue_setQueue_of_ne (snapshot : MempoolSnapshot) {kind other : LtpQueueKind}
    (entries : List LtpMempoolEntry) (h : other ≠ kind) :
    (snapshot.setQueue kind entries).queue other = snapshot.queue other := by
  cases kind <;> cases other <;> first | rfl | exact absurd rfl h

/-- `retain` on every queue. -/
def retain (snapshot : MempoolSnapshot) (keep : LtpMempoolEntry → Bool) : MempoolSnapshot :=
  ⟨snapshot.commitment.filter keep, snapshot.storage.filter keep, snapshot.market.filter keep⟩

@[simp] theorem queue_retain (snapshot : MempoolSnapshot) (keep : LtpMempoolEntry → Bool)
    (kind : LtpQueueKind) : (snapshot.retain keep).queue kind = (snapshot.queue kind).filter keep := by
  cases kind <;> rfl

/-- The number of entries of all queues. -/
def entryCount (snapshot : MempoolSnapshot) : Nat :=
  snapshot.commitment.length + snapshot.storage.length + snapshot.market.length

end MempoolSnapshot

structure ChainProfile where
  chainId : UInt32
  ttlSecs : Nat
  maxDepth : Nat
  deriving Repr, DecidableEq

def chainProfile : LtpChain → ChainProfile
  | .mainnet => ⟨0, 86400, 10000⟩
  | .signet => ⟨1, 3600, 5000⟩
  | .testnet | .testnet4 => ⟨2, 7200, 5000⟩
  | .regtest => ⟨3, 300, 1000⟩

/-- A handle on the file, with its own snapshot. -/
structure LtpMempool where
  path : String
  profile : ChainProfile
  snapshot : MempoolSnapshot

/-- The file, as the snapshot that it reads back as; none when there is no file. -/
abbrev MempoolFile := Option MempoolSnapshot

namespace LtpMempool

/-- `LtpMempool::open`. -/
def openFile (path : String) (chain : LtpChain) (file : MempoolFile) (read : Result Unit) :
    Result LtpMempool :=
  match file with
  | none => .ok ⟨path, chainProfile chain, .empty⟩
  | some snapshot => do
    read.context s!"failed to read `{path}`"
    .ok ⟨path, chainProfile chain, snapshot⟩

/-- A change of the snapshot, and `save`: what is returned when the file is written. -/
def save {α : Type} (mempool : LtpMempool) (snapshot : MempoolSnapshot) (result : α)
    (write : Result Unit) (file : MempoolFile) : Result α × LtpMempool × MempoolFile :=
  match write.context s!"failed to write `{mempool.path}`" with
  | .ok () => (.ok result, { mempool with snapshot }, some snapshot)
  | .error err => (.error err, { mempool with snapshot }, file)

/-- Enqueue an entry; deduplicates by `startDigest` within the queue. -/
def enqueue (mempool : LtpMempool) (entry : LtpMempoolEntry) (write : Result Unit)
    (file : MempoolFile) : Result Bool × LtpMempool × MempoolFile :=
  let entries := mempool.snapshot.queue entry.queue
  if entries.any (·.startDigest = entry.startDigest) then
    (.ok false, mempool, file)
  else if mempool.profile.maxDepth ≤ entries.length then
    (.error s!"LTP mempool {entry.queue} queue at max depth {mempool.profile.maxDepth}", mempool, file)
  else
    mempool.save (mempool.snapshot.setQueue entry.queue (entries ++ [entry])) true write file

/-- Drain up to `max` entries from a queue (FIFO). -/
def drain (mempool : LtpMempool) (queue : LtpQueueKind) (max : Nat) (write : Result Unit)
    (file : MempoolFile) : Result (List LtpMempoolEntry) × LtpMempool × MempoolFile :=
  let entries := mempool.snapshot.queue queue
  let n := min entries.length max
  if (entries.take n).isEmpty then
    (.ok [], mempool, file)
  else
    mempool.save (mempool.snapshot.setQueue queue (entries.drop n)) (entries.take n) write file

/-- The entry is not older than the time to live. -/
def unexpired (profile : ChainProfile) (now : Nat) (entry : LtpMempoolEntry) : Bool :=
  now - profile.ttlSecs ≤ entry.enqueuedAt.toNat

/-- Remove entries older than the chain's time to live. -/
def pruneExpired (mempool : LtpMempool) (now : Result Nat) (write : Result Unit)
    (file : MempoolFile) : Result Nat × LtpMempool × MempoolFile :=
  match now.context "system time before unix epoch" with
  | .error err => (.error err, mempool, file)
  | .ok now =>
    let kept := mempool.snapshot.retain (unexpired mempool.profile now)
    let removed := mempool.snapshot.entryCount - kept.entryCount
    if 0 < removed then mempool.save kept removed write file else (.ok removed, mempool, file)

/-- Remove the first entry that matches `startDigest` from a queue. -/
def removeStartDigest (mempool : LtpMempool) (queue : LtpQueueKind) (startDigest : Bytes32)
    (write : Result Unit) (file : MempoolFile) : Result Bool × LtpMempool × MempoolFile :=
  let entries := mempool.snapshot.queue queue
  match entries.findIdx? (·.startDigest = startDigest) with
  | some index =>
    mempool.save (mempool.snapshot.setQueue queue (entries.eraseIdx index)) true write file
  | none => (.ok false, mempool, file)

/-- Higher priority first, and the older entry first within a priority. -/
def before (left right : LtpMempoolEntry) : Bool :=
  right.priority < left.priority ||
    (right.priority == left.priority && left.enqueuedAt ≤ right.enqueuedAt)

/-- Commitment-queue digests for the priority drain of the calendar. -/
def commitmentStartDigests (mempool : LtpMempool) : List Bytes32 :=
  (mempool.snapshot.commitment.mergeSort before).map LtpMempoolEntry.startDigest

/-- The calendar sees the digests of the commitment queue, each as often as it is queued. -/
theorem commitmentStartDigests_perm (mempool : LtpMempool) :
    mempool.commitmentStartDigests.Perm
      (mempool.snapshot.commitment.map LtpMempoolEntry.startDigest) :=
  (List.mergeSort_perm _ _).map _

/-- A save changes the file only when it succeeds. -/
theorem save_eq {α : Type} (mempool : LtpMempool) (snapshot : MempoolSnapshot) (result : α)
    (write : Result Unit) (file : MempoolFile) :
    (∃ ended, mempool.save snapshot result write file = (.ok result, ended, some snapshot) ∧
        write = .ok ()) ∨
      ∃ err ended, mempool.save snapshot result write file = (.error err, ended, file) ∧
        write ≠ .ok () := by
  cases write with
  | ok _ => exact .inl ⟨_, rfl, rfl⟩
  | error err => exact .inr ⟨_, _, rfl, by simp⟩

end LtpMempool

end Lord.Ltp
