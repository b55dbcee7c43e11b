import Lord.Bitcoin.Block
import Lord.Index.UtxoEntry
import Lord.Ordinals.Sat
import Mathlib.Data.List.AList

/-! The index updater: the outputs of blocks go through a cache to the tables, and the sats of their
inputs are assigned to them. -/

namespace Lord.Index

open Bitcoin Ordinals

structure BlockData where
  header : Header
  txdata : List (Transaction × Bytes32)

structure SatPoint where
  outpoint : OutPoint
  offset : Nat
  deriving Repr, DecidableEq

/-! ### Tables -/

/-- The tables of the index, as a write transaction sees them. -/
structure Tables where
  /-- `HEIGHT_TO_BLOCK_HEADER`, in the order of the heights. -/
  headers : List Header
  outpointToUtxoEntry : OutPoint → Option Bytes
  /-- `SCRIPT_PUBKEY_TO_OUTPOINT`, whose keys have several outpoints. -/
  scriptPubkeyToOutpoint : Bytes → OutPoint → Bool
  satToSatpoint : Nat → Option SatPoint
  /-- `Statistic::LostSats`. -/
  lostSats : Nat

def Tables.empty : Tables := ⟨[], fun _ => none, fun _ _ => false, fun _ => none, 0⟩

/-- The longest key, and the longest value of a key with several, that LMDB puts. -/
def lmdbMaxKeySize : Nat := 511

/-- `DupTable::put`. -/
def putScriptPubkey (tables : Tables) (scriptPubkey : Bytes) (outpoint : OutPoint) :
    Result Tables :=
  if scriptPubkey.length = 0 ∨ lmdbMaxKeySize < scriptPubkey.length ∨
      lmdbMaxKeySize < outpoint.serialize.length then
    .error "MDB_BAD_VALSIZE: Unsupported size of key/DB name/data, or wrong DUPFIXED size"
  else
    .ok { tables with scriptPubkeyToOutpoint := fun key value =>
            (key = scriptPubkey && value = outpoint) || tables.scriptPubkeyToOutpoint key value }

/-- The row of an outpoint after it is removed from its script pubkey. -/
def deleteScriptPubkey (tables : Tables) (scriptPubkey : Bytes) (outpoint : OutPoint) : Tables :=
  { tables with scriptPubkeyToOutpoint := fun key value =>
      !(key = scriptPubkey && value = outpoint) && tables.scriptPubkeyToOutpoint key value }

def putUtxoEntry (tables : Tables) (outpoint : OutPoint) (entry : Option Bytes) : Tables :=
  { tables with
    outpointToUtxoEntry := Function.update tables.outpointToUtxoEntry outpoint entry }

/-- `unbound_outpoint()`. -/
def unboundOutpoint : OutPoint := ⟨Bytes32.replicate 0, 0⟩

def isSpecialOutpoint (outpoint : OutPoint) : Bool :=
  outpoint = OutPoint.null || outpoint = unboundOutpoint

abbrev UtxoCache := AList fun _ : OutPoint => Bytes

structure IndexState where
  tables : Tables
  cache : UtxoCache

/-! ### The inputs of a transaction -/

/-- Take the entry of an outpoint from the cache, or else from the tables.  The index has every
unspent output, so there is no other place to look. -/
def takeEntry (config : IndexConfig) (s : IndexState) (outpoint : OutPoint) :
    Outcome (Bytes × IndexState) :=
  match s.cache.lookup outpoint with
  | some entry => .ok (entry, { s with cache := s.cache.erase outpoint })
  | none =>
    match s.tables.outpointToUtxoEntry outpoint with
    | none => .error (.panic "assertion failed: !index.have_full_utxo_index()")
    | some entry =>
      if config.indexAddresses then
        match (UtxoEntry.parse config entry).bind ParsedUtxoEntry.scriptPubkey with
        | none => .error (.panic "called `Option::unwrap()` on a `None` value")
        | some scriptPubkey =>
          if s.tables.scriptPubkeyToOutpoint scriptPubkey outpoint then
            let tables := deleteScriptPubkey s.tables scriptPubkey outpoint
            .ok (entry, { s with tables := putUtxoEntry tables outpoint none })
          else
            .error (.panic s!"script pubkey entry ({scriptPubkey}, {outpoint.vout}) not found")
      else
        .ok (entry, { s with tables := putUtxoEntry s.tables outpoint none })

def takeEntries (config : IndexConfig) (s : IndexState) :
    List OutPoint → Outcome (List Bytes × IndexState)
  | [] => .ok ([], s)
  | outpoint :: rest => do
    let (entry, s) ← takeEntry config s outpoint
    let (entries, s) ← takeEntries config s rest
    .ok (entry :: entries, s)

/-! ### The sats of a transaction -/

abbrev SatTable := Nat → Option SatPoint

/-- Where the first sat of a range lies now, unless it is a common one. -/
def putSatPoint (rows : SatTable) (start : Nat) (point : SatPoint) : SatTable :=
  if common start then rows else Function.update rows start (some point)

/-- The ranges that make up what remains of the value of an output.  A range that is cut goes back in
front of the input ranges, as the pending one. -/
def assignRanges (outpoint : OutPoint) (value remaining : Nat) (input : List SatRange)
    (rows : SatTable) : Outcome (List SatRange × List SatRange × SatTable) :=
  if remaining = 0 then
    .ok ([], input, rows)
  else
    match input with
    | [] => .error (.panic "insufficient inputs for transaction outputs")
    | range :: rest =>
      let rows := putSatPoint rows range.1 ⟨outpoint, value - remaining⟩
      let count := range.2 - range.1
      if remaining < count then
        let middle := range.1 + remaining
        .ok ([(range.1, middle)], (middle, range.2) :: rest, rows)
      else do
        let (ranges, input, rows) ← assignRanges outpoint value (remaining - count) rest rows
        .ok (range :: ranges, input, rows)

/-- The ranges of the outputs from `vout` on, and those that are left over. -/
def assignOutputs (txid : Bytes32) (vout : Nat) (outputs : List TxOut) (input : List SatRange)
    (rows : SatTable) : Outcome (List (List SatRange) × List SatRange × SatTable) :=
  match outputs with
  | [] => .ok ([], input, rows)
  | output :: rest => do
    let value := output.value.toNat
    let (ranges, input, rows) ←
      assignRanges ⟨txid, UInt32.ofNat vout⟩ value value input rows
    let (others, input, rows) ← assignOutputs txid (vout + 1) rest input rows
    .ok (ranges :: others, input, rows)

/-! ### Transactions -/

/-- What indexing a block carries from transaction to transaction. -/
structure BlockState where
  index : IndexState
  /-- The subsidy and the fees so far. -/
  coinbaseInputs : List SatRange
  lostSatRanges : List SatRange

/-- The sat ranges of parsed entries. -/
def inputRanges (entries : List ParsedUtxoEntry) : Outcome (List SatRange) := do
  let ranges ← entries.mapM fun entry => okOr entry.satRanges (.panic "sat ranges are missing")
  .ok (ranges.flatMap SatRange.loadAll)

/-- The entries of outputs go to the cache. -/
def cacheOutputs (cache : UtxoCache) (txid : Bytes32) (entries : List Bytes) : UtxoCache :=
  entries.zipIdx.foldl (fun cache entry => cache.insert ⟨txid, UInt32.ofNat entry.2⟩ entry.1) cache

/-- The entries of the outputs with these ranges. -/
def outputEntries (config : IndexConfig) (outputs : List TxOut) (ranges : List (List SatRange)) :
    List Bytes :=
  List.zipWith (fun output ranges =>
    UtxoEntry.pushed config ranges output.value.toNat output.scriptPubkey) outputs ranges

def indexTransaction (config : IndexConfig) (coinbase : Bool) (st : BlockState)
    (tx : Transaction × Bytes32) : Outcome BlockState := do
  let (entries, index) ← if coinbase then .ok ([], st.index)
    else takeEntries config st.index (tx.1.input.map TxIn.previousOutput)
  let parsed ← entries.mapM fun entry =>
    okOr (UtxoEntry.parse config entry) (.panic "called `Result::unwrap()` on an `Err` value")
  if 2 ^ 32 < tx.1.output.length then
    .error (.panic "called `Result::unwrap()` on an `Err` value: TryFromIntError(())")
  else if config.indexSats then do
    let input ← if coinbase then .ok st.coinbaseInputs else inputRanges parsed
    let (ranges, leftover, rows) ←
      assignOutputs tx.2 0 tx.1.output input index.tables.satToSatpoint
    let index := {
      tables := { index.tables with satToSatpoint := rows }
      cache := cacheOutputs index.cache tx.2 (outputEntries config tx.1.output ranges) }
    .ok {
      index
      coinbaseInputs := if coinbase then st.coinbaseInputs else st.coinbaseInputs ++ leftover
      lostSatRanges := if coinbase then st.lostSatRanges ++ leftover else st.lostSatRanges }
  else
    let entries := outputEntries config tx.1.output (tx.1.output.map fun _ => [])
    .ok { st with index := { index with cache := cacheOutputs index.cache tx.2 entries } }

/-! ### Blocks -/

/-- The places of lost ranges, and the number of lost sats behind them. -/
def putLostRanges (rows : SatTable) (lostSats : Nat) : List SatRange → SatTable × Nat
  | [] => (rows, lostSats)
  | range :: rest =>
    putLostRanges (putSatPoint rows range.1 ⟨OutPoint.null, lostSats⟩)
      (lostSats + (range.2 - range.1)) rest

/-- The lost ranges of a block go to the entry of the null outpoint. -/
def recordLost (config : IndexConfig) (st : BlockState) : Outcome IndexState :=
  let tables := st.index.tables
  if st.lostSatRanges.isEmpty then
    .ok st.index
  else
    let entry := (st.index.cache.lookup OutPoint.null).getD (UtxoEntry.empty config)
    let (satToSatpoint, lostSats) :=
      putLostRanges tables.satToSatpoint tables.lostSats st.lostSatRanges
    match UtxoEntry.merged config entry (UtxoEntry.pushed config st.lostSatRanges 0 []) with
    | none => .error (.panic "assertion failed: a_parsed.script_pubkey().is_empty()")
    | some merged => .ok {
        tables := { tables with satToSatpoint, lostSats }
        cache := st.index.cache.insert OutPoint.null merged }

/-- The subsidy of a block, as one range. -/
def subsidyRanges (height : Nat) : List SatRange :=
  if 0 < Height.subsidy height then
    [(Height.startingSat height, Height.startingSat height + Height.subsidy height)]
  else
    []

/-- The coinbase comes last: its inputs are the fees of the other transactions. -/
def indexUtxoEntries (config : IndexConfig) (s : IndexState) (block : BlockData) :
    Outcome IndexState := do
  let coinbaseInputs := if config.indexSats then subsidyRanges s.tables.headers.length else []
  let st ← (block.txdata.drop 1).foldlM (indexTransaction config false) ⟨s, coinbaseInputs, []⟩
  let st ← (block.txdata.take 1).foldlM (indexTransaction config true) st
  recordLost config st

def indexBlock (config : IndexConfig) (s : IndexState) (block : BlockData) : Outcome IndexState := do
  let s ← if config.indexAddresses || config.indexSats then indexUtxoEntries config s block
    else .ok s
  .ok { s with tables := { s.tables with headers := s.tables.headers ++ [block.header] } }

/-! ### Commits -/

/-- The order in which a commit goes through the cache. -/
structure CacheOrder where
  order : List (Σ _ : OutPoint, Bytes) → List (Σ _ : OutPoint, Bytes)
  perm : ∀ entries, (order entries).Perm entries

/-- The order in which the entries are there. -/
def CacheOrder.asListed : CacheOrder := ⟨id, .refl⟩

/-- An entry of the cache goes to the tables; that of a special outpoint is merged with what is
there. -/
def commitEntry (config : IndexConfig) (tables : Tables) (cached : Σ _ : OutPoint, Bytes) :
    Outcome Tables := do
  let entry ←
    match isSpecialOutpoint cached.1, tables.outpointToUtxoEntry cached.1 with
    | true, some old =>
      okOr (UtxoEntry.merged config old cached.2)
        (Fault.panic "assertion failed: a_parsed.script_pubkey().is_empty()")
    | _, _ => .ok cached.2
  let tables := putUtxoEntry tables cached.1 (some entry)
  if config.indexAddresses then
    match (UtxoEntry.parse config entry).bind ParsedUtxoEntry.scriptPubkey with
    | none => .error (.panic "called `Option::unwrap()` on a `None` value")
    | some scriptPubkey => (putScriptPubkey tables scriptPubkey cached.1).outcome
  else
    .ok tables

def commit (config : IndexConfig) (s : IndexState) (order : CacheOrder) : Outcome IndexState := do
  let tables ← (order.order s.cache.entries).foldlM (commitEntry config) s.tables
  .ok ⟨tables, ∅⟩

/-! ### Runs -/

/-- What an update does to the index. -/
inductive Event where
  | block (block : BlockData)
  | commit (order : CacheOrder)

def exec (config : IndexConfig) (s : IndexState) (event : Event) : Outcome IndexState :=
  match event with
  | .block block => indexBlock config s block
  | .commit order => commit config s order

/-- A fetched block, whether a savepoint is required after it, and how a commit after it would go
through the cache. -/
structure FetchedBlock where
  block : BlockData
  savepoint : Bool
  order : CacheOrder

/-- A call of `update_index`. -/
structure UpdateCall where
  commitInterval : Nat
  blocks : List FetchedBlock
  order : CacheOrder

/-- The loop of `update_index`: it commits after each interval, where a savepoint is required, and
at its end. -/
def updateEvents (commitInterval : Nat) (order : CacheOrder) (uncommitted : Nat) :
    List FetchedBlock → List Event
  | [] => if 0 < uncommitted then [.commit order] else []
  | fetched :: rest =>
    .block fetched.block ::
      if uncommitted + 1 = commitInterval ∨ fetched.savepoint then
        .commit fetched.order :: updateEvents commitInterval order 0 rest
      else
        updateEvents commitInterval order (uncommitted + 1) rest

def UpdateCall.events (call : UpdateCall) : List Event :=
  updateEvents call.commitInterval call.order 0 call.blocks

/-- An index after these events, unless one of them fails. -/
def runEvents (config : IndexConfig) (s : IndexState) (events : List Event) : Outcome IndexState :=
  events.foldlM (exec config) s

def updateIndex (config : IndexConfig) (tables : Tables) (call : UpdateCall) : Outcome Tables := do
  let s ← runEvents config ⟨tables, ∅⟩ call.events
  .ok s.tables

end Lord.Index
