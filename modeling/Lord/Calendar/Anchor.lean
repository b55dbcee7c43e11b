import Lord.Calendar.Service

/-! The anchor worker: a tick reloads the snapshot, settles the pending anchor, drains a batch of the
queue, broadcasts its merkle root and records it as the pending anchor.  The lock is free between
these sections. -/

namespace Lord.Calendar

open Ots Bitcoin

structure AnchorConfig where
  regtest : Bool
  minTxInterval : Nat
  batchMax : Nat
  walletName : Option String
  pendingAnchorTimeout : Nat
  maxAnchorFeeSats : Option Nat
  minWalletBalanceSats : Option Nat
  ltpPriority : Bool

/-- Where a tick stands when it does not hold the lock. -/
inductive Phase where
  | idle
  /-- The snapshot is read and not yet installed. -/
  | loaded (snapshot : CalendarState)
  | installed
  /-- There is no pending anchor to wait for. -/
  | settled
  /-- The anchor may be paid for. -/
  | funded (now : Nat)
  /-- The batch is drained and not yet broadcast. -/
  | drained (now : Nat) (batch : List Bytes32) (merkleRoot : Bytes)

namespace CalendarInner

/-- `save_state` of what is in memory. -/
def save (inner : CalendarInner) (write : Result Unit) : Result Unit × CalendarInner :=
  let saved := saveState inner.files write inner.calendarDir inner.state
  (saved.1, { inner with files := saved.2 })

/-- A saved section goes on to a phase, and one that is not saved ends the tick. -/
def saveThen (inner : CalendarInner) (write : Result Unit) (phase : Phase) :
    Result Phase × CalendarInner :=
  let saved := inner.save write
  (saved.1.map fun _ => phase, saved.2)

end CalendarInner

/-! ### Reload -/

/-- The first half of `reload_inner_from_disk`. -/
def loadSection (inner : CalendarInner) (read : Result Unit) : Result Phase :=
  match read with
  | .error err => .error err
  | .ok () => .ok (.loaded (loadState inner.files))

/-- The second half of `reload_inner_from_disk`. -/
def installSection (inner : CalendarInner) (snapshot : CalendarState) : CalendarInner :=
  { inner with state := snapshot }

/-! ### The pending anchor -/

/-- What settling a pending anchor takes from outside: the wallet, the clock and the write. -/
structure SettleEnv where
  findConfirmedTx : String → Result (Option (UInt32 × Block × Transaction))
  now : Nat
  anchoredAt : Result UInt64
  write : Result Unit

def pendingAnchorTimedOut (pending : PendingAnchor) (now timeout : Nat) : Bool :=
  timeout ≤ now - pending.broadcastAt.toNat

def restorePendingBatch (inner : CalendarInner) (pending : PendingAnchor) : CalendarInner :=
  { inner with state := {
      queue := pending.batch.reverse.foldl DigestQueue.enqueue inner.state.queue
      store := { inner.state.store with pendingAnchor := none } } }

section

variable [Digests] [OtsCodec]

def confirmedProofs (pending : PendingAnchor) (merkleRoot : Bytes) (height : UInt32)
    (block : Block) (tx : Transaction) : Result (List (Bytes32 × Bytes)) :=
  pending.batch.zipIdx.mapM fun entry => do
    let proof ← Result.context
      (bitcoinConfirmedProofBytes entry.1.val merkleRoot (pending.batch.map Subtype.val) entry.2 tx
        block height)
      s!"failed to build confirmed proof for {Hex.encode entry.1.val}"
    .ok (entry.1, proof)

def finalizeAnchor (inner : CalendarInner) (pending : PendingAnchor) (env : SettleEnv)
    (height : UInt32) (block : Block) (tx : Transaction) : Result CalendarInner := do
  let merkleRoot ← Result.context
    (okOr (Hex.decode pending.merkleRoot) "invalid hex") "decode merkle root"
  let anchoredAt ← env.anchoredAt.context "system time before unix epoch"
  let proofs ← confirmedProofs pending merkleRoot height block tx
  let store := proofs.foldl (fun store entry => store.putProof entry.1 entry.2) inner.state.store
  .ok { inner with state := { inner.state with store := { store with
          lastAnchor := some ⟨height, pending.txid, pending.merkleRoot, anchoredAt⟩
          lastAnchorSkippedReason := none
          pendingAnchor := none } } }

def settleSection (inner : CalendarInner) (config : AnchorConfig) (env : SettleEnv) :
    Result Phase × CalendarInner :=
  match inner.state.store.pendingAnchor with
  | none => (.ok .settled, inner)
  | some pending =>
    match env.findConfirmedTx pending.txid with
    | .error err => (.error err, inner)
    | .ok (some (height, block, tx)) =>
      match finalizeAnchor inner pending env height block tx with
      | .error err => (.error err, inner)
      | .ok finalized => finalized.saveThen env.write .idle
    | .ok none =>
      if pendingAnchorTimedOut pending env.now config.pendingAnchorTimeout then
        (restorePendingBatch inner pending).saveThen env.write .settled
      else
        (.ok .idle, inner)

end

/-! ### The checks before a new anchor -/

/-- What the checks take from outside: the clock, the fee estimate, the wallet and the write. -/
structure FundEnv where
  now : Nat
  /-- `estimatesmartfee`: the rate in satoshis for 1000 bytes, when there is one. -/
  estimate : Result (Option Nat)
  balance : Result (List Nat)
  unspent : Result (List Nat)
  write : Result Unit

def dustSats : Nat := 330

def regtestAnchorFeeSats : Nat := 1000

def anchorFeeSats (config : AnchorConfig) (env : FundEnv) : Result Nat :=
  if config.regtest then
    .ok regtestAnchorFeeSats
  else do
    let rate ← env.estimate.context "estimatesmartfee failed"
    .ok (max (min (rate.getD 1000 * 250) (2 ^ 64 - 1)) regtestAnchorFeeSats)

/-- Whether an amount pays for an anchor of this fee; the sum wraps around at 64 bits. -/
def spendable (fee amount : Nat) : Bool := (dustSats + fee) % 2 ^ 64 < amount

def ensureWalletFunded (config : AnchorConfig) (env : FundEnv) (fee : Nat) : Result Unit := do
  let amounts ← env.unspent.context "listunspent failed"
  if amounts.any (spendable fee) then
    .ok ()
  else if config.regtest then
    .error "calendar wallet has no spendable UTXO; mine blocks to fund the wallet first"
  else
    .error "calendar wallet has no balance"

def recordAnchorSkipped (inner : CalendarInner) (reason : String) : CalendarInner :=
  { inner with state := { inner.state with store :=
      { inner.state.store with lastAnchorSkippedReason := some reason } } }

/-- Why the anchor of this fee is skipped. -/
def skippedReason (config : AnchorConfig) (env : FundEnv) (fee : Nat) : Option String :=
  match config.maxAnchorFeeSats with
  | some maxFee =>
    if maxFee < fee then some s!"anchor fee {fee} sats exceeds cap {maxFee} sats" else balanceReason
  | none => balanceReason
where
  balanceReason : Option String :=
    match config.minWalletBalanceSats with
    | none => none
    | some minBalance =>
      match env.balance.context "listunspent failed" with
      | .ok amounts =>
        if amounts.sum < minBalance then
          some s!"wallet balance {amounts.sum} sats below minimum {minBalance} sats"
        else
          none
      | .error err => some s!"wallet balance check failed: {err}"

def fundSection (inner : CalendarInner) (config : AnchorConfig) (lastTx : Nat) (env : FundEnv) :
    Result Phase × CalendarInner :=
  if env.now - lastTx < config.minTxInterval then
    (.ok .idle, inner)
  else if config.walletName.isSome then
    (.error "named calendar wallets are not supported yet", inner)
  else
    match anchorFeeSats config env with
    | .error err => (.error err, inner)
    | .ok fee =>
      match skippedReason config env fee with
      | some reason => (recordAnchorSkipped inner reason).saveThen env.write .idle
      | none =>
        match ensureWalletFunded config env fee with
        | .error err => (.error err, inner)
        | .ok () => (.ok (.funded env.now), inner)

/-! ### The batch -/

/-- What a drain takes from outside: the digests that the LTP mempool prefers, and the write. -/
structure DrainEnv where
  priority : Result (List Bytes32)
  write : Result Unit

/-- The batch that a tick drains, and the rest of the queue. -/
def drained (config : AnchorConfig) (env : DrainEnv) (queue : DigestQueue) :
    List Bytes32 × DigestQueue :=
  if config.ltpPriority then
    match env.priority with
    | .ok priority => queue.drainBatchPrioritized priority config.batchMax
    | .error _ => queue.drainBatch config.batchMax
  else
    queue.drainBatch config.batchMax

/-- The batch is filed under its merkle root. -/
def fileBatch (inner : CalendarInner) (queue : DigestQueue) (batch : List Bytes32)
    (merkleRoot : Bytes) : CalendarInner :=
  { inner with state := {
      queue
      store := { inner.state.store with
        batches := inner.state.store.batches.insert (Hex.encode merkleRoot) batch } } }

def drainSection [Digests] (inner : CalendarInner) (config : AnchorConfig) (env : DrainEnv)
    (now : Nat) : Result Phase × CalendarInner :=
  if inner.state.store.pendingAnchor.isSome || inner.state.queue.pending.isEmpty then
    (.ok .idle, inner)
  else
    let (batch, queue) := drained config env inner.state.queue
    let emptied := { inner with state := { inner.state with queue } }
    if batch.isEmpty then
      (.ok .idle, emptied)
    else
      match okOr (otsMerkleRoot (batch.map Subtype.val)) "empty merkle batch" with
      | .error err => (.error err, emptied)
      | .ok merkleRoot =>
        (fileBatch inner queue batch merkleRoot).saveThen env.write (.drained now batch merkleRoot)

/-! ### The broadcast -/

/-- What a broadcast takes from outside: the wallet, the clock and the write. -/
structure BroadcastEnv where
  /-- The id of the anchor transaction that was sent. -/
  broadcast : Result String
  broadcastAt : Result UInt64
  write : Result Unit

def restoreDrainedBatch (inner : CalendarInner) (batch : List Bytes32) (merkleRoot : Bytes) :
    CalendarInner :=
  { inner with state := {
      queue := batch.reverse.foldl DigestQueue.enqueue inner.state.queue
      store := { inner.state.store with
        batches := inner.state.store.batches.erase (Hex.encode merkleRoot) } } }

def recordPendingAnchor (inner : CalendarInner) (batch : List Bytes32) (merkleRoot : Bytes)
    (txid : String) (broadcastAt : UInt64) : CalendarInner :=
  { inner with state := { inner.state with store := { inner.state.store with
        pendingAnchor := some ⟨txid, Hex.encode merkleRoot, batch, broadcastAt⟩
        batches := inner.state.store.batches.erase (Hex.encode merkleRoot) } } }

/-- The broadcast and the section after it, with the time of the last transaction. -/
def broadcastSection (inner : CalendarInner) (lastTx : Nat) (env : BroadcastEnv) (now : Nat)
    (batch : List Bytes32) (merkleRoot : Bytes) : Result Phase × CalendarInner × Nat :=
  match env.broadcast with
  | .error err =>
    let restored := (restoreDrainedBatch inner batch merkleRoot).save env.write
    (restored.1.bind fun _ => .error err, restored.2, lastTx)
  | .ok txid =>
    match env.broadcastAt.context "system time before unix epoch" with
    | .error err => (.error err, inner, now)
    | .ok broadcastAt =>
      let recorded :=
        (recordPendingAnchor inner batch merkleRoot txid broadcastAt).saveThen env.write .idle
      (recorded.1, recorded.2, now)

/-! ### The calendar and its worker -/

/-- The calendar, its worker, and the digests that it accepted. -/
structure System where
  inner : CalendarInner
  lastTx : Nat
  phase : Phase
  /-- The digests for which a submission returned a proof. -/
  accepted : List Bytes32
  /-- Those of them that were submitted after the last load. -/
  recent : List Bytes32

/-- The sections that run under the lock, and a kill of the process. -/
inductive Action where
  | submit (digest : Bytes) (write : Result Unit)
  | load (read : Result Unit)
  | install
  | settle (env : SettleEnv)
  | fund (env : FundEnv)
  | drain (env : DrainEnv)
  | broadcast (env : BroadcastEnv)
  | restart

namespace System

/-- The end of a section: an error ends the tick. -/
def next (s : System) (ended : Result Phase × CalendarInner) : System :=
  { s with
    inner := ended.2
    phase := match ended.1 with
      | .ok phase => phase
      | .error _ => .idle }

/-- A process that starts on these files. -/
def start (calendarDir uri : String) (files : CalendarFiles) : System where
  inner := ⟨calendarDir, uri, loadState files, files⟩
  lastTx := 0
  phase := .idle
  accepted := []
  recent := []

variable [Digests] [OtsCodec]

omit [Digests] in
/-- A submission, which counts as accepted when a proof is returned. -/
def submit (s : System) (digest : Bytes) (write : Result Unit) : System :=
  match submitDigest s.inner write digest, toArray32 digest with
  | (.ok _, inner), some digest =>
    { s with inner, accepted := digest :: s.accepted, recent := digest :: s.recent }
  | (_, inner), _ => { s with inner }

/-- One section; the sections of a tick come in their order. -/
def step (config : AnchorConfig) (s : System) (action : Action) : System :=
  match action, s.phase with
  | .submit digest write, _ => s.submit digest write
  | .load read, .idle => { s.next (loadSection s.inner read, s.inner) with recent := [] }
  | .install, .loaded snapshot => s.next (.ok .installed, installSection s.inner snapshot)
  | .settle env, .installed => s.next (settleSection s.inner config env)
  | .fund env, .settled => s.next (fundSection s.inner config s.lastTx env)
  | .drain env, .funded now => s.next (drainSection s.inner config env now)
  | .broadcast env, .drained now batch merkleRoot =>
    let ended := broadcastSection s.inner s.lastTx env now batch merkleRoot
    { s.next (ended.1, ended.2.1) with lastTx := ended.2.2 }
  | .restart, _ =>
    { s with
      inner := { s.inner with state := loadState s.inner.files }
      lastTx := 0
      phase := .idle }
  | _, _ => s

end System

/-- `anchor_once` without a section of another thread in between. -/
def anchorOnce [Digests] [OtsCodec] (config : AnchorConfig) (s : System) (read : Result Unit)
    (settle : SettleEnv) (fund : FundEnv) (drain : DrainEnv) (broadcast : BroadcastEnv) : System :=
  [Action.load read, .install, .settle settle, .fund fund, .drain drain, .broadcast broadcast].foldl
    (System.step config) s

end Lord.Calendar
