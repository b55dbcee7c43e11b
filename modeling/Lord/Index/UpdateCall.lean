import Lord.Index.Reorg

/-! A call of `Index::update` as a machine: the loop of passes, the thread that fetches blocks ahead of
it, and the node, whose best chain may change between any two steps. -/

namespace Lord.Index

open Bitcoin Ots

/-- A running `update_index`. -/
structure Pass where
  /-- The open write transaction and the cache. -/
  index : IndexState
  /-- `Updater::height`. -/
  height : Nat
  startingIndexHeight : Nat
  uncommitted : Nat
  /-- The blocks that are fetched and not received. -/
  channel : List BlockData
  fetchHeight : Nat
  /-- The thread runs, so the channel is open. -/
  fetching : Bool

inductive Phase where
  | idle
  /-- In front of a pass. -/
  | ready
  | running (pass : Pass)
  /-- In front of a recovery. -/
  | reorged (height depth : Nat)
  | returned (result : Except UpdateError Unit)

structure Machine where
  dir : IndexDir
  /-- The best chain of the node, from its genesis block on. -/
  bestChain : List BlockData
  phase : Phase
  unrecoverablyReorged : Bool
  /-- Whether the best chain has changed since the call began. -/
  changed : Bool

/-- What receiving a block meets: the faults of `get_block_hash`, the headers that the node reports,
the order of a commit, and a signal to shut down. -/
structure ReceiveEnv where
  blockHashFault : Nat → Option Error
  headers : Result Nat
  order : CacheOrder
  savepoint : SavepointEnv
  shuttingDown : Bool

/-- What happens to the machine. -/
inductive Action where
  | bestChain (chain : List BlockData)
  /-- The process ends and begins again. -/
  | restart
  | update
  /-- A pass begins. -/
  | start (blockCount : Result Unit) (blockHashFault : Nat → Option Error)
  /-- The thread fetches a block, or gives up. -/
  | fetch (givesUp : Bool)
  | receive (env : ReceiveEnv)
  /-- The channel is closed. -/
  | finish (order : CacheOrder) (savepoint : SavepointEnv)
  | recover

section

variable [Digests]

/-- `get_block_hash(..).into_option()` on a node with this best chain. -/
def nodeBlockHash (chain : List BlockData) (fault : Nat → Option Error) : BlockHashes := fun height =>
  match fault height with
  | some err => .error err
  | none => .ok (chain[height]?.map fun block => block.header.blockHash)

/-- The check of an index that is as high as the node. -/
def checkTip (settings : UpdaterSettings) (chain : List BlockData) (tables : Tables) (height : Nat)
    (fault : Nat → Option Error) : Except UpdateError Unit :=
  let bitcoindHeight := chain.length - 1
  if height = bitcoindHeight + 1 then
    match nodeBlockHash chain fault bitcoindHeight with
    | .error err => .error (.fault (.err err))
    | .ok none => .ok ()
    | .ok (some bitcoindTip) =>
      if blockHashInTxn tables (some bitcoindHeight) = some bitcoindTip then
        .ok ()
      else
        detectReorg settings (nodeBlockHash chain fault) tables bitcoindTip height
  else
    .ok ()

/-- The head of `update_index`. -/
def startPass (settings : UpdaterSettings) (chain : List BlockData) (store : Store)
    (blockCount : Result Unit) (fault : Nat → Option Error) : Except UpdateError Pass :=
  match blockCount with
  | .error err => .error (.fault (.err err))
  | .ok () =>
    match checkTip settings chain store.tables store.height fault with
    | .error err => .error err
    | .ok () => .ok {
        index := ⟨store.tables, ∅⟩
        height := store.height
        startingIndexHeight := store.height
        uncommitted := 0
        channel := []
        fetchHeight := store.height
        fetching := true }

omit [Digests] in
/-- The thread of `fetch_blocks_from`: the channel holds 32 blocks, and one more waits to be sent. -/
def Pass.fetch (settings : UpdaterSettings) (chain : List BlockData) (pass : Pass)
    (givesUp : Bool) : Pass :=
  if !pass.fetching || 33 ≤ pass.channel.length then
    pass
  else if givesUp || settings.heightLimit.any (· ≤ pass.fetchHeight) then
    { pass with fetching := false }
  else
    match chain[pass.fetchHeight]? with
    | none => { pass with fetching := false }
    | some block =>
      let block := if settings.firstIndexHeight ≤ pass.fetchHeight then block
        else { block with txdata := [] }
      { pass with channel := pass.channel ++ [block], fetchHeight := pass.fetchHeight + 1 }

omit [Digests] in
/-- `Updater::commit`: the tables, and then the savepoints. -/
def commitIndex (config : IndexConfig) (settings : UpdaterSettings) (dir : IndexDir)
    (index : IndexState) (height : Nat) (order : CacheOrder) (env : SavepointEnv) :
    Except UpdateError IndexState × IndexDir :=
  match commit config index order with
  | .error fault => (.error (.fault fault), dir)
  | .ok index =>
    let dir := { dir with store := { dir.store with tables := index.tables } }
    match updateSavepoints settings dir height env with
    | (.error err, dir) => (.error err, dir)
    | (.ok (), dir) => (.ok index, dir)

omit [Digests] in
/-- Whether the loop commits after a block. -/
def commitDue (settings : UpdaterSettings) (store : Store) (pass : Pass) (headers : Result Nat) :
    Except UpdateError Bool :=
  if pass.uncommitted = settings.commitInterval then
    .ok true
  else if settings.integrationTest || !settings.savepointsEnabled then
    .ok false
  else
    match headers with
    | .error err => .error (.fault (.err err))
    | .ok headers =>
      (isSavepointRequired settings headers store.lastSavepointHeight pass.height).mapError .fault

omit [Digests] in
/-- The loop ends: what is left in the channel is not received. -/
def Pass.close (pass : Pass) : Pass := { pass with channel := [], fetching := false }

/-- A block of the loop. -/
def receiveBlock (config : IndexConfig) (settings : UpdaterSettings) (chain : List BlockData)
    (dir : IndexDir) (pass : Pass) (block : BlockData) (env : ReceiveEnv) :
    Except UpdateError Pass × IndexDir :=
  match detectReorg settings (nodeBlockHash chain env.blockHashFault) pass.index.tables
      block.header.prevBlockhash pass.height with
  | .error err => (.error err, dir)
  | .ok () =>
    match indexBlock config pass.index block with
    | .error fault => (.error (.fault fault), dir)
    | .ok index =>
      let pass := { pass with
        index, height := pass.height + 1, uncommitted := pass.uncommitted + 1 }
      match commitDue settings dir.store pass env.headers with
      | .error err => (.error err, dir)
      | .ok false => (.ok (if env.shuttingDown then pass.close else pass), dir)
      | .ok true =>
        match commitIndex config settings dir pass.index pass.height env.order env.savepoint with
        | (.error err, dir) => (.error err, dir)
        | (.ok index, dir) =>
          let pass := { pass with index, uncommitted := 0 }
          let stops := index.tables.headers.length ≠ pass.height || env.shuttingDown
          (.ok (if stops then pass.close else pass), dir)

omit [Digests] in
/-- The end of `update_index`. -/
def finishPass (config : IndexConfig) (settings : UpdaterSettings) (dir : IndexDir) (pass : Pass)
    (order : CacheOrder) (env : SavepointEnv) : Except UpdateError Unit × IndexDir :=
  if 0 < pass.uncommitted then
    match commitIndex config settings dir pass.index pass.height order env with
    | (.error err, dir) => (.error err, dir)
    | (.ok _, dir) => (.ok (), dir)
  else
    (.ok (), dir)

/-! ### Steps -/

omit [Digests] in
/-- The loop of `Index::update` after a pass that failed. -/
def Machine.failed (m : Machine) (err : UpdateError) : Machine :=
  match err with
  | .recoverable height depth => { m with phase := .reorged height depth }
  | .unrecoverable =>
    { m with phase := .returned (.error .unrecoverable), unrecoverablyReorged := true }
  | .fault fault => { m with phase := .returned (.error (.fault fault)) }

def Machine.step (config : IndexConfig) (settings : UpdaterSettings) (m : Machine)
    (action : Action) : Machine :=
  match m.phase, action with
  | _, .bestChain chain => { m with bestChain := chain, changed := true }
  | _, .restart => { m with phase := .idle, unrecoverablyReorged := false }
  | .idle, .update => { m with phase := .ready, changed := false }
  | .returned _, .update => { m with phase := .ready, changed := false }
  | .ready, .start blockCount fault =>
    match startPass settings m.bestChain m.dir.store blockCount fault with
    | .error err => m.failed err
    | .ok pass => { m with phase := .running pass }
  | .running pass, .fetch givesUp =>
    { m with phase := .running (pass.fetch settings m.bestChain givesUp) }
  | .running pass, .receive env =>
    match pass.channel with
    | [] => m
    | block :: rest =>
      match receiveBlock config settings m.bestChain m.dir { pass with channel := rest } block env with
      | (.error err, dir) => { m with dir }.failed err
      | (.ok pass, dir) => { m with dir, phase := .running pass }
  | .running pass, .finish order savepoint =>
    if pass.channel.isEmpty && !pass.fetching then
      match finishPass config settings m.dir pass order savepoint with
      | (.error err, dir) => { m with dir }.failed err
      | (.ok (), dir) => { m with dir, phase := .returned (.ok ()) }
    else
      m
  | .reorged height depth, .recover =>
    match handleReorg settings m.dir height depth with
    | .error fault => { m with phase := .returned (.error (.fault fault)) }
    | .ok dir => { m with dir, phase := .ready }
  | _, _ => m

theorem Machine.step_bestChain (config : IndexConfig) (settings : UpdaterSettings) (m : Machine)
    (chain : List BlockData) :
    m.step config settings (.bestChain chain) = { m with bestChain := chain, changed := true } := by
  obtain ⟨dir, best, phase, reorged, changed⟩ := m
  cases phase <;> rfl

theorem Machine.step_restart (config : IndexConfig) (settings : UpdaterSettings) (m : Machine) :
    m.step config settings .restart =
      { m with phase := .idle, unrecoverablyReorged := false } := by
  obtain ⟨dir, best, phase, reorged, changed⟩ := m
  cases phase <;> rfl

end

/-- An index without anything in it, beside a node. -/
def Machine.start (chain : List BlockData) : Machine where
  dir := ⟨⟨Tables.empty, 0⟩, SortedMap.empty⟩
  bestChain := chain
  phase := .idle
  unrecoverablyReorged := false
  changed := false

end Lord.Index
