import Lord.Index.FindRange
import Lord.Index.Reorg
import Lord.Lib.Checked
import Lord.Lib.Mutex
import Lord.Lib.Runs

/-! The queries of the index and the recovery from a reorganisation, each behind the mutex of the
store. -/

namespace Lord.Index.Query

open Bitcoin Ots Guarded

/-- `Statistic`, as far as queries read or write them. -/
inductive Statistic where
  | commits
  | initialSyncTime
  | outputsTraversed
  | satRanges
  deriving Repr, DecidableEq

structure TransactionInfo where
  startingBlockCount : Nat
  startingTimestamp : Nat
  deriving Repr, DecidableEq

/-- The counters of a database. -/
structure Counters where
  statistic : Statistic → Nat
  writeTransactions : List TransactionInfo

/-- What the mutex guards: the database and its savepoints, with their counters. -/
structure Content where
  dir : IndexDir
  counters : Counters
  savepointCounters : Nat → Counters

structure TxOutResult where
  bestblock : Bytes32
  coinbase : Bool
  confirmations : Nat
  txOut : TxOut
  deriving Repr, DecidableEq

structure RawTransactionResult where
  confirmations : Option Nat
  vout : List TxOut
  deriving Repr, DecidableEq

/-- The index without its store: the configuration, and what the node, the clock and the disk answer. -/
structure Env where
  config : IndexConfig
  settings : UpdaterSettings
  /-- The rows of `OUTPOINT_TO_UTXO_ENTRY` in the order of the table. -/
  rows : Tables → List (OutPoint × Bytes)
  genesisTxid : Bytes32
  genesisOutputs : List TxOut
  rawTransactionLookup : Bool
  getTxOut : Bytes32 → Nat → Result (Option TxOutResult)
  getRawTransactionInfo : Bytes32 → Result (Option RawTransactionResult)
  /-- The time in so many seconds. -/
  secondsFromNow : Nat → Result Int
  realDiskSize : Result Nat

def Content.tables (content : Content) : Tables := content.dir.store.tables

/-- The height of the last header. -/
def Content.lastHeight (content : Content) : Option Nat :=
  checkedSub content.tables.headers.length 1

/-! ### Blocks -/

def blockCount : Guarded Content Nat := lock do
  let content ← read
  pure content.tables.headers.length

def blockHash [Digests] (height : Option Nat) : Guarded Content (Option Bytes32) := lock do
  let content ← read
  pure (blockHashInTxn content.tables height)

inductive Blocktime where
  | confirmed (time : Nat)
  | expected (time : Int)
  deriving Repr, DecidableEq

def blockTime (env : Env) (height : Nat) : Guarded Content Blocktime := lock do
  let content ← read
  match content.tables.headers[height]? with
  | some header => pure (.confirmed header.time.toNat)
  | none => do
    let current := content.lastHeight.getD 0
    let expectedBlocks ← lift (okOr (checkedSub height current)
      (.err s!"current {current} height is greater than sat height {height}"))
    let time ← lift (env.secondsFromNow (10 * 60 * expectedBlocks)).outcome
    pure (.expected time)

/-! ### Sats -/

def find (env : Env) (sat : Nat) : Guarded Content (Option SatPoint) := lock do
  let content ← read
  lift (Index.find env.config content.tables (env.rows content.tables) sat)

def findRange (env : Env) (rangeStart rangeEnd : Nat) :
    Guarded Content (Option (List FindRangeOutput)) := lock do
  let content ← read
  lift (Index.findRange env.config content.tables (env.rows content.tables) rangeStart rangeEnd)

/-! ### Outputs -/

/-- The ranges of an output, without the mutex. -/
def storedRanges (env : Env) (tables : Tables) (outpoint : OutPoint) :
    Outcome (Option (List SatRange)) :=
  match tables.outpointToUtxoEntry outpoint with
  | none => .ok none
  | some entry => do
    let ranges ← loadRanges env.config entry
    .ok (some ranges)

def list (env : Env) (outpoint : OutPoint) : Guarded Content (Option (List SatRange)) :=
  if !env.config.indexSats then
    pure none
  else lock do
    let content ← read
    lift (storedRanges env content.tables outpoint)

def containsOutput (outpoint : OutPoint) : Guarded Content Bool := lock do
  let content ← read
  pure (content.tables.outpointToUtxoEntry outpoint).isSome

/-- The total value of an entry. -/
def entryValue (env : Env) (entry : Bytes) : Outcome Nat := do
  let parsed ← okOr (UtxoEntry.parse env.config entry) (.panic "the entry does not parse")
  .ok parsed.totalValue

/-- The loop of `get_sat_balances_for_outputs`. -/
def sumBalances (env : Env) (tables : Tables) (acc : Nat) : List OutPoint → Outcome Nat
  | [] => .ok acc
  | output :: rest =>
    match tables.outpointToUtxoEntry output with
    | none => sumBalances env tables acc rest
    | some entry => do
      let value ← entryValue env entry
      let acc ← Checked.add 64 acc value
      sumBalances env tables acc rest

def getSatBalancesForOutputs (env : Env) (outputs : List OutPoint) : Guarded Content Nat := lock do
  let content ← read
  lift (sumBalances env content.tables 0 outputs)

structure UtxoRecursive where
  satRanges : Option (List SatRange)
  value : Nat
  deriving Repr, DecidableEq

/-- `get_utxo_recursive`, which keeps its guard over the call of `list`. -/
def getUtxoRecursive (env : Env) (outpoint : OutPoint) : Guarded Content (Option UtxoRecursive) :=
  lock do
    let content ← read
    match content.tables.outpointToUtxoEntry outpoint with
    | none => pure none
    | some entry => do
      let satRanges ← list env outpoint
      let value ← lift (entryValue env entry)
      pure (some ⟨satRanges, value⟩)

section

variable [Digests]

def getUnspentOrUnconfirmedOutput (env : Env) (txid : Bytes32) (vout : Nat) :
    Guarded Content (Option TxOutResult) :=
  if txid = env.genesisTxid then
    match env.genesisOutputs[vout]? with
    | none => pure none
    | some output => do
      let hash ← blockHash none
      let bestblock ← lift
        (okOr hash (.panic "called `Option::unwrap()` on a `None` value"))
      let confirmations ← blockCount
      pure (some ⟨bestblock, true, confirmations, output⟩)
  else
    lift (env.getTxOut txid vout).outcome

def getTransactionInfo (env : Env) (txid : Bytes32) :
    Guarded Content (Option RawTransactionResult) :=
  if txid = env.genesisTxid then do
    let confirmations ← blockCount
    pure (some ⟨some confirmations, env.genesisOutputs⟩)
  else if !env.rawTransactionLookup then
    pure none
  else
    lift (env.getRawTransactionInfo txid).outcome

structure OutputInfo where
  confirmations : Nat
  indexed : Bool
  outpoint : OutPoint
  satRanges : Option (List SatRange)
  spent : Bool
  txOut : TxOut
  deriving Repr, DecidableEq

def getOutputInfo (env : Env) (outpoint : OutPoint) : Guarded Content (Option OutputInfo) := do
  let satRanges ← list env outpoint
  if outpoint = OutPoint.null ∨ outpoint = unboundOutpoint then
    let value := total (satRanges.getD [])
    pure (some ⟨0, true, outpoint, satRanges, false, ⟨UInt64.ofNat value, []⟩⟩)
  else do
    let indexed ← containsOutput outpoint
    let unspent ← getUnspentOrUnconfirmedOutput env outpoint.txid outpoint.vout.toNat
    match unspent with
    | some result =>
      pure (some ⟨result.confirmations, indexed, outpoint, satRanges, false, result.txOut⟩)
    | none => do
      let info ← getTransactionInfo env outpoint.txid
      match info with
      | none => pure none
      | some result =>
        match result.vout[outpoint.vout.toNat]? with
        | none => pure none
        | some output =>
          pure (some ⟨result.confirmations.getD 0, indexed, outpoint, satRanges, true, output⟩)

end

/-! ### The state of the index -/

structure StatusHtml where
  addressIndex : Bool
  height : Option Nat
  initialSyncTime : Nat
  lostSats : Nat
  satIndex : Bool
  txindexAvailable : Bool
  deriving Repr, DecidableEq

def status (env : Env) : Guarded Content StatusHtml := lock do
  let content ← read
  pure ⟨env.config.indexAddresses, content.lastHeight, content.counters.statistic .initialSyncTime,
    content.tables.lostSats, env.config.indexSats, env.rawTransactionLookup⟩

structure Info where
  blocksIndexed : Nat
  indexFileSize : Nat
  outputsTraversed : Nat
  satRanges : Nat
  transactions : List TransactionInfo
  utxosIndexed : Nat
  deriving Repr, DecidableEq

def info (env : Env) : Guarded Content Info := lock do
  let content ← read
  let indexFileSize ← lift env.realDiskSize.outcome
  pure ⟨content.tables.headers.length, indexFileSize, content.counters.statistic .outputsTraversed,
    content.counters.statistic .satRanges, content.counters.writeTransactions,
    (env.rows content.tables).length⟩

/-! ### Recovery -/

def incrementStatistic (statistic : Statistic) (n : Nat) : Guarded Content Unit := lock do
  let content ← read
  let value ← lift (Checked.add 64 (content.counters.statistic statistic) n)
  write { content with counters.statistic := Function.update content.counters.statistic statistic value }

/-- `Reorg::handle_reorg`, with its log line. -/
def handleReorg (env : Env) (height depth : Nat) : Guarded Content Unit :=
  if !env.settings.savepointsEnabled then
    lift (.error (.panic "enable index savepoints to test reorg handling"))
  else do
    let savepointHeight ← lock do
      let content ← read
      lift (savepointHeightForReorg content.dir.listSavepoints height depth).outcome
    lock do
      let content ← read
      match content.dir.savepoints.get savepointHeight with
      | none => lift (.error (.err s!"savepoint at `{savepointHeight}` is missing data.mdb"))
      | some snapshot =>
        write { content with
          dir := { content.dir with store := snapshot }
          counters := content.savepointCounters savepointHeight }
    incrementStatistic .commits 1
    let _ ← blockCount
    pure ()

end Lord.Index.Query
