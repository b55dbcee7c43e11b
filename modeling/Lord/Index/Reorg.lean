import Lord.Index.Updater
import Lord.Lib.Checked
import Lord.Lib.SortedMap

/-! Reorganisations of the best chain: how the updater detects them, the savepoints that it keeps, and
how it goes back to one. -/

namespace Lord.Index

open Bitcoin Ots

/-! ### The index on disk -/

structure UpdaterSettings where
  savepointInterval : Nat
  maxSavepoints : Nat
  commitInterval : Nat
  heightLimit : Option Nat
  firstIndexHeight : Nat
  savepointsEnabled : Bool
  integrationTest : Bool

/-- What a committed transaction leaves in `data.mdb`. -/
structure Store where
  tables : Tables
  /-- `Statistic::LastSavepointHeight`. -/
  lastSavepointHeight : Nat

/-- The database, and the savepoint directories with their copies of it. -/
structure IndexDir where
  store : Store
  savepoints : SortedMap Nat Store

/-- The next height of a database. -/
def Store.height (store : Store) : Nat := store.tables.headers.length

/-- `list_savepoints`. -/
def IndexDir.listSavepoints (dir : IndexDir) : List Nat := dir.savepoints.entries.map Prod.fst

/-- The ends of an update other than success. -/
inductive UpdateError where
  | recoverable (height depth : Nat)
  | unrecoverable
  | fault (fault : Fault)
  deriving DecidableEq

/-- What `get_block_hash(..).into_option()` answers. -/
abbrev BlockHashes := Nat → Result (Option Bytes32)

/-! ### Detection -/

section

variable [Digests]

def blockHashInTxn (tables : Tables) (height : Option Nat) : Option Bytes32 :=
  match height with
  | some height => tables.headers[height]?.map Header.blockHash
  | none => tables.headers.getLast?.map Header.blockHash

def checkedSub (a b : Nat) : Option Nat := if b ≤ a then some (a - b) else none

omit [Digests] in
/-- The bound of the search, in `u32`. -/
def maxRecoverableReorgDepth (settings : UpdaterSettings) (height : Nat) : Outcome Nat :=
  if 2 ^ 32 ≤ settings.savepointInterval ∨ 2 ^ 32 ≤ settings.maxSavepoints then
    .error (.panic "called `Result::unwrap()` on an `Err` value: TryFromIntError(())")
  else do
    let others ← Checked.sub settings.maxSavepoints 1
    let intervals ← Checked.mul 32 others settings.savepointInterval
    let position ← Checked.rem height settings.savepointInterval
    Checked.add 32 intervals position

/-- The search for a depth at which the index and the node have the same block. -/
def searchFork (tables : Tables) (blockHash : BlockHashes) (height : Nat) :
    List Nat → UpdateError
  | [] => .unrecoverable
  | depth :: rest =>
    match blockHash (height - depth) with
    | .error err => .fault (.err err)
    | .ok bitcoindBlockHash =>
      if blockHashInTxn tables (checkedSub height depth) = bitcoindBlockHash then
        .recoverable height depth
      else
        searchFork tables blockHash height rest

def detectReorg (settings : UpdaterSettings) (blockHash : BlockHashes) (tables : Tables)
    (prevBlockhash : Bytes32) (height : Nat) : Except UpdateError Unit :=
  match blockHashInTxn tables (checkedSub height 1) with
  | none => .ok ()
  | some indexPrevBlockhash =>
    if indexPrevBlockhash = prevBlockhash then
      .ok ()
    else
      match maxRecoverableReorgDepth settings height with
      | .error fault => .error (.fault fault)
      | .ok maxDepth => .error (searchFork tables blockHash height (List.range' 1 (maxDepth - 1)))

end

/-! ### Savepoints -/

/-- Whether a savepoint is required; `headers` is what the node reports. -/
def isSavepointRequired (settings : UpdaterSettings) (headers lastSavepointHeight height : Nat) :
    Outcome Bool :=
  if settings.savepointsEnabled && (height < settings.savepointInterval ||
      settings.savepointInterval ≤ height - lastSavepointHeight) then do
    let heights ← Checked.mul 64 settings.savepointInterval settings.maxSavepoints
    let window ← Checked.add 64 heights 1
    .ok (headers - height ≤ window)
  else
    .ok false

/-- What an update of the savepoints meets: the number of headers, and what `copy_to_path` does onto a
file that exists. -/
structure SavepointEnv where
  headers : Result Nat
  overwrite : Result Unit

/-- `copy_to_savepoint`. -/
def copyToSavepoint (dir : IndexDir) (height : Nat) (overwrite : Result Unit) : Result IndexDir :=
  if (dir.savepoints.get height).isSome then
    match overwrite with
    | .error err => .error err
    | .ok () => .ok { dir with savepoints := dir.savepoints.insert height dir.store }
  else
    .ok { dir with savepoints := dir.savepoints.insert height dir.store }

/-- The oldest savepoint makes room for a new one. -/
def pruneSavepoints (settings : UpdaterSettings) (dir : IndexDir) : IndexDir :=
  match dir.listSavepoints.head? with
  | some oldest =>
    if settings.maxSavepoints ≤ dir.listSavepoints.length then
      { dir with savepoints := dir.savepoints.erase oldest }
    else
      dir
  | none => dir

def updateSavepoints (settings : UpdaterSettings) (dir : IndexDir) (height : Nat)
    (env : SavepointEnv) : Except UpdateError Unit × IndexDir :=
  if !settings.savepointsEnabled then
    (.ok (), dir)
  else
    match env.headers with
    | .error err => (.error (.fault (.err err)), dir)
    | .ok headers =>
      match isSavepointRequired settings headers dir.store.lastSavepointHeight height with
      | .error fault => (.error (.fault fault), dir)
      | .ok false => (.ok (), dir)
      | .ok true =>
        let dir := pruneSavepoints settings dir
        match copyToSavepoint dir height env.overwrite with
        | .error err => (.error (.fault (.err err)), dir)
        | .ok dir =>
          (.ok (), { dir with store := { dir.store with lastSavepointHeight := height } })

def savepointHeightForReorg (savepoints : List Nat) (height depth : Nat) : Result Nat :=
  okOr (savepoints.filter (· ≤ height - depth)).max?
    s!"no savepoint at or before height {height - depth} available for reorg recovery"

/-- The database goes back to the savepoint; the directories stay. -/
def handleReorg (settings : UpdaterSettings) (dir : IndexDir) (height depth : Nat) :
    Outcome IndexDir :=
  if !settings.savepointsEnabled then
    .error (.panic "enable index savepoints to test reorg handling")
  else
    match savepointHeightForReorg dir.listSavepoints height depth with
    | .error err => .error (.err err)
    | .ok savepointHeight =>
      match dir.savepoints.get savepointHeight with
      | none => .error (.err s!"savepoint at `{savepointHeight}` is missing data.mdb")
      | some snapshot => .ok { dir with store := snapshot }

end Lord.Index
