import Lord.Index.Ledger

/-! The cache and the tables of the index together show the unspent outputs of the chain with their
ranges, wherever an entry lies at the moment. -/

namespace Lord.Index

open Bitcoin Ordinals

/-- The entry of an unspent output. -/
def outputEntry (config : IndexConfig) (ledger : Ledger) (outpoint : OutPoint) (output : TxOut) :
    Bytes :=
  UtxoEntry.pushed config (ledger.ranges outpoint) output.value.toNat output.scriptPubkey

/-- The entry of the null outpoint: there is none before sats are lost. -/
def nullEntry (config : IndexConfig) (lost : List SatRange) : Option Bytes :=
  if config.indexSats = true ∧ lost ≠ [] then some (UtxoEntry.pushed config lost 0 []) else none

/-- The script pubkey of an entry, which it has when addresses are indexed. -/
def entryScript (config : IndexConfig) (entry : Bytes) : Option Bytes :=
  (UtxoEntry.parse config entry).bind ParsedUtxoEntry.scriptPubkey

theorem entryScript_pushed (config : IndexConfig) (ranges : List SatRange) {value : Nat}
    (hvalue : value < 2 ^ 64) (script : Bytes) :
    entryScript config (UtxoEntry.pushed config ranges value script) =
      if config.indexAddresses then some script else none := by
  rw [entryScript, UtxoEntry.parse_pushed config ranges hvalue]
  rfl

theorem entryScript_outputEntry (config : IndexConfig) (ledger : Ledger) (outpoint : OutPoint)
    (output : TxOut) :
    entryScript config (outputEntry config ledger outpoint output) =
      if config.indexAddresses then some output.scriptPubkey else none :=
  entryScript_pushed config _ output.value.toNat_lt _

/-- What the index shows of a chain, where the tables are as the last commit left them apart from
what was spent since. -/
structure View (config : IndexConfig) (committed : ChainState × Ledger) (chain : ChainState)
    (ledger : Ledger) (s : IndexState) : Prop where
  entries : ∀ outpoint, outpoint ≠ OutPoint.null →
    (s.cache.lookup outpoint).or (s.tables.outpointToUtxoEntry outpoint) =
      (chain.utxos.lookup outpoint).map (outputEntry config ledger outpoint)
  cached : ∀ outpoint, outpoint ≠ OutPoint.null → outpoint ∈ s.cache →
    outpoint ∉ committed.1.utxos
  stored : ∀ outpoint, outpoint ≠ OutPoint.null →
    s.tables.outpointToUtxoEntry outpoint ≠ none → outpoint ∈ committed.1.utxos
  committed_txids : ∀ outpoint ∈ committed.1.utxos, outpoint.txid ∈ chain.txids
  committed_lost : total committed.2.lost = committed.1.unclaimed
  lost : ∃ fresh, ledger.lost = committed.2.lost ++ fresh ∧
    s.tables.outpointToUtxoEntry OutPoint.null = nullEntry config committed.2.lost ∧
    s.cache.lookup OutPoint.null = nullEntry config fresh
  scripts : ∀ script outpoint, s.tables.scriptPubkeyToOutpoint script outpoint = true ↔
    ∃ entry, s.tables.outpointToUtxoEntry outpoint = some entry ∧
      entryScript config entry = some script
  rows : s.tables.satToSatpoint = if config.indexSats then ledger.rows else fun _ => none
  lost_sats : s.tables.lostSats = if config.indexSats then total ledger.lost else 0
  headers : s.tables.headers.length = chain.height

section Inputs

variable {config : IndexConfig} {committed : ChainState × Ledger} {chain : ChainState}
  {ledger : Ledger} {s : IndexState}

/-- An entry lies in one place only. -/
theorem View.stored_of_cached (h : View config committed chain ledger s) {outpoint : OutPoint}
    (hnull : outpoint ≠ OutPoint.null) (hcached : outpoint ∈ s.cache) :
    s.tables.outpointToUtxoEntry outpoint = none := by
  by_contra hstored
  exact h.cached outpoint hnull hcached (h.stored outpoint hnull hstored)

/-- Of an index without the outpoint the chain shows nothing either. -/
theorem View.erase (h : View config committed chain ledger s) {outpoint : OutPoint}
    (hnull : outpoint ≠ OutPoint.null) {s' : IndexState}
    (hcache : s'.cache = s.cache.erase outpoint)
    (hstored : s'.tables.outpointToUtxoEntry =
      Function.update s.tables.outpointToUtxoEntry outpoint none)
    (hscripts : ∀ script other, s'.tables.scriptPubkeyToOutpoint script other = true ↔
      other ≠ outpoint ∧ s.tables.scriptPubkeyToOutpoint script other = true)
    (hrest : s'.tables.satToSatpoint = s.tables.satToSatpoint ∧
      s'.tables.lostSats = s.tables.lostSats ∧ s'.tables.headers = s.tables.headers) :
    View config committed { chain with utxos := chain.utxos.erase outpoint } ledger s' where
  entries other hother := by
    rw [hcache, hstored]
    by_cases heq : other = outpoint
    · subst heq
      rw [AList.lookup_erase, AList.lookup_erase, Function.update_self]
      rfl
    · rw [AList.lookup_erase_ne heq, AList.lookup_erase_ne heq, Function.update_of_ne heq]
      exact h.entries other hother
  cached other hother hmem := by
    rw [hcache, AList.mem_erase] at hmem
    exact h.cached other hother hmem.2
  stored other hother hsome := by
    rw [hstored] at hsome
    by_cases heq : other = outpoint
    · subst heq
      rw [Function.update_self] at hsome
      exact absurd rfl hsome
    · rw [Function.update_of_ne heq] at hsome
      exact h.stored other hother hsome
  committed_txids := h.committed_txids
  committed_lost := h.committed_lost
  lost := by
    obtain ⟨fresh, hlost, hnullStored, hnullCached⟩ := h.lost
    refine ⟨fresh, hlost, ?_, ?_⟩
    · rw [hstored, Function.update_of_ne hnull.symm, hnullStored]
    · rw [hcache, AList.lookup_erase_ne hnull.symm, hnullCached]
  scripts script other := by
    rw [hscripts, hstored]
    by_cases heq : other = outpoint
    · subst heq
      simp
    · rw [Function.update_of_ne heq, h.scripts]
      exact and_iff_right heq
  rows := by rw [hrest.1, h.rows]
  lost_sats := by rw [hrest.2.1, h.lost_sats]
  headers := by rw [hrest.2.2, h.headers]

/-- An unspent output is taken from the index. -/
theorem View.takeEntry (h : View config committed chain ledger s) (hnull : OutPoint.null ∉ chain.utxos)
    {outpoint : OutPoint} {output : TxOut} (hlookup : chain.utxos.lookup outpoint = some output) :
    ∃ s', Index.takeEntry config s outpoint =
        .ok (outputEntry config ledger outpoint output, s') ∧
      View config committed { chain with utxos := chain.utxos.erase outpoint } ledger s' ∧
      s'.tables.headers = s.tables.headers := by
  have hne : outpoint ≠ OutPoint.null := by
    rintro rfl
    exact hnull (AList.lookup_isSome.mp (by rw [hlookup]; rfl))
  have hentry := h.entries outpoint hne
  rw [hlookup, Option.map_some] at hentry
  unfold Index.takeEntry
  cases hcached : s.cache.lookup outpoint with
  | some entry =>
    have hmem : outpoint ∈ s.cache := AList.lookup_isSome.mp (by rw [hcached]; rfl)
    have hstored := h.stored_of_cached hne hmem
    rw [hcached, Option.some_or] at hentry
    obtain rfl := Option.some.inj hentry
    refine ⟨_, rfl, h.erase hne rfl ?_ ?_ ⟨rfl, rfl, rfl⟩, rfl⟩
    · exact (Function.update_eq_self_iff.mpr hstored.symm).symm
    · intro script other
      refine ⟨fun hscript => ⟨?_, hscript⟩, And.right⟩
      rintro rfl
      obtain ⟨entry, hsome, -⟩ := (h.scripts script other).mp hscript
      rw [hstored] at hsome
      cases hsome
  | none =>
    have hnone : s.cache.erase outpoint = s.cache := by
      refine AList.ext ?_
      exact List.kerase_of_notMem_keys (AList.lookup_eq_none.mp hcached)
    rw [hcached, Option.none_or] at hentry
    have hscript := entryScript_outputEntry config ledger outpoint output
    have hscripts := h.scripts
    dsimp only
    rw [hentry]
    dsimp only
    split
    · rename_i haddresses
      rw [if_pos haddresses] at hscript
      rw [entryScript] at hscript
      rw [hscript]
      dsimp only
      rw [if_pos ((hscripts _ _).mpr ⟨_, hentry, hscript⟩)]
      refine ⟨_, rfl, h.erase hne hnone.symm rfl ?_ ⟨rfl, rfl, rfl⟩, rfl⟩
      intro script other
      show (!(decide (script = _) && decide (other = outpoint)) && _) = true ↔ _
      by_cases heq : other = outpoint
      · subst heq
        simp only [decide_true, Bool.and_true, Bool.and_eq_true, Bool.not_eq_true',
          decide_eq_false_iff_not, ne_eq, not_true_eq_false, false_and, iff_false, not_and]
        intro hother hrow
        obtain ⟨entry, hsome, hentryScript⟩ := (hscripts script other).mp hrow
        rw [hentry] at hsome
        obtain rfl := Option.some.inj hsome
        rw [entryScript, hscript] at hentryScript
        exact hother (Option.some.inj hentryScript).symm
      · simp [heq]
    · rename_i haddresses
      rw [if_neg haddresses] at hscript
      refine ⟨_, rfl, h.erase hne hnone.symm rfl ?_ ⟨rfl, rfl, rfl⟩, rfl⟩
      intro script other
      refine ⟨fun hrow => ⟨?_, hrow⟩, And.right⟩
      rintro rfl
      obtain ⟨entry, hsome, hentryScript⟩ := (hscripts script other).mp hrow
      rw [hentry] at hsome
      obtain rfl := Option.some.inj hsome
      rw [hscript] at hentryScript
      cases hentryScript

/-- The entry is that of an output at this outpoint. -/
def EntryOf (config : IndexConfig) (ledger : Ledger) (entry : Bytes) (outpoint : OutPoint) : Prop :=
  ∃ output, entry = outputEntry config ledger outpoint output

/-- The inputs of a valid transaction are taken from the index. -/
theorem View.takeEntries (h : View config committed chain ledger s)
    (hnull : OutPoint.null ∉ chain.utxos) {outpoints : List OutPoint} {value : Nat}
    {utxos : UtxoSet} (hspend : spend chain.utxos outpoints = some (value, utxos)) :
    ∃ entries s', Index.takeEntries config s outpoints = .ok (entries, s') ∧
      List.Forall₂ (EntryOf config ledger) entries outpoints ∧
      View config committed { chain with utxos } ledger s' ∧
      s'.tables.headers = s.tables.headers := by
  induction outpoints generalizing chain s value with
  | nil =>
    simp only [spend, Option.some.injEq, Prod.mk.injEq] at hspend
    obtain ⟨rfl, rfl⟩ := hspend
    exact ⟨[], s, rfl, .nil, h, rfl⟩
  | cons outpoint rest ih =>
    simp only [spend, Option.bind_eq_bind, Option.bind_eq_some_iff, Option.some.injEq,
      Prod.mk.injEq, Prod.exists] at hspend
    obtain ⟨output, hlookup, others, utxos', hrest, rfl, rfl⟩ := hspend
    obtain ⟨s₁, htake, hview, hheaders⟩ := h.takeEntry hnull hlookup
    obtain ⟨entries, s₂, htakes, hentries, hview', hheaders'⟩ :=
      ih hview (fun hmem => hnull (AList.mem_erase.mp hmem).2) hrest
    refine ⟨outputEntry config ledger outpoint output :: entries, s₂, ?_, .cons ⟨output, rfl⟩ hentries,
      hview', hheaders'.trans hheaders⟩
    rw [Index.takeEntries, htake]
    show (Index.takeEntries config s₁ rest >>= _) = _
    rw [htakes]
    rfl

theorem parse_outputEntry (config : IndexConfig) (ledger : Ledger) (outpoint : OutPoint)
    (output : TxOut) :
    ∃ parsed, UtxoEntry.parse config (outputEntry config ledger outpoint output) = some parsed ∧
      (config.indexSats = true →
        parsed.satRanges = some (SatRange.storeAll (ledger.ranges outpoint))) := by
  refine ⟨_, UtxoEntry.parse_pushed config _ output.value.toNat_lt _, fun hsats => ?_⟩
  rw [ParsedUtxoEntry.satRanges, if_pos hsats]

/-- The entries of outputs parse, to their ranges when sats are indexed. -/
theorem parse_entries {entries : List Bytes} {outpoints : List OutPoint}
    (h : List.Forall₂ (EntryOf config ledger) entries outpoints) (message : String) :
    ∃ parsed, entries.mapM (fun entry => okOr (UtxoEntry.parse config entry)
        (Fault.panic message)) = .ok parsed ∧
      (config.indexSats = true → (∀ outpoint ∈ outpoints, ∀ range ∈ ledger.ranges outpoint,
        InBlock range) → inputRanges parsed = .ok (outpoints.flatMap ledger.ranges)) := by
  induction h with
  | nil => exact ⟨[], rfl, fun _ _ => rfl⟩
  | @cons entry outpoint entries outpoints hentry _ ih =>
    obtain ⟨output, rfl⟩ := hentry
    obtain ⟨parsed, hparsed, hranges⟩ := ih
    obtain ⟨first, hfirst, hbytes⟩ := parse_outputEntry config ledger outpoint output
    refine ⟨first :: parsed, ?_, fun hsats hall => ?_⟩
    · rw [List.mapM_cons, hparsed, hfirst]
      rfl
    · have hrest := hranges hsats fun o ho => hall o (List.mem_cons_of_mem _ ho)
      have hload := SatRange.loadAll_storeAll fun range hrange =>
        (hall outpoint List.mem_cons_self range hrange).fits
      unfold inputRanges at hrest ⊢
      obtain ⟨bytes, hothers, hjoin⟩ := bind_eq_ok.mp hrest
      rw [List.mapM_cons, hothers, hbytes hsats]
      show Except.ok ((SatRange.storeAll (ledger.ranges outpoint) :: bytes).flatMap
        SatRange.loadAll) = _
      rw [List.flatMap_cons, hload, Except.ok.inj hjoin, List.flatMap_cons]

end Inputs

/-! ### Outputs -/

theorem pushed_congr {config : IndexConfig} {ranges ranges' : List SatRange} (value : Nat)
    (script : Bytes) (h : config.indexSats = true → ranges = ranges') :
    UtxoEntry.pushed config ranges value script = UtxoEntry.pushed config ranges' value script := by
  unfold UtxoEntry.pushed
  split
  · rename_i hsats
    rw [h hsats]
  · rfl

theorem getElem?_outputEntries (config : IndexConfig) {outputs : List TxOut}
    {ranges : List (List SatRange)} (hlen : ranges.length = outputs.length) (i : Nat) :
    (outputEntries config outputs ranges)[i]? = (outputs[i]?).map fun output =>
      UtxoEntry.pushed config (ranges.getD i []) output.value.toNat output.scriptPubkey := by
  rw [outputEntries, List.getElem?_zipWith]
  by_cases hi : i < outputs.length
  · rw [List.getElem?_eq_getElem hi, List.getElem?_eq_getElem (show i < ranges.length by omega),
      List.getD_eq_getElem _ _ (show i < ranges.length by omega)]
    rfl
  · rw [List.getElem?_eq_none (show outputs.length ≤ i by omega)]
    rfl

theorem length_outputEntries (config : IndexConfig) {outputs : List TxOut}
    {ranges : List (List SatRange)} (hlen : ranges.length = outputs.length) :
    (outputEntries config outputs ranges).length = outputs.length := by
  rw [outputEntries, List.length_zipWith]
  omega

section Outputs

variable {config : IndexConfig} {committed : ChainState × Ledger} {chain : ChainState}
  {ledger : Ledger} {s : IndexState}

/-- The outputs of a new transaction go to the cache. -/
theorem View.create (h : View config committed chain ledger s)
    (htxids : ∀ outpoint ∈ chain.utxos, outpoint.txid ∈ chain.txids)
    {tx : Transaction × Bytes32} (hnew : tx.2 ∉ chain.txids) (hlen : tx.1.output.length < 2 ^ 32)
    {outs : List (List SatRange)} (ranges : List (List SatRange)) (rows : SatTable)
    (houts : outs.length = tx.1.output.length) (hranges : ranges.length = tx.1.output.length)
    (hsame : config.indexSats = true → ranges = outs) :
    View config committed
      { chain with
        utxos := addOutputs chain.utxos tx.2 tx.1.output
        txids := tx.2 :: chain.txids }
      { ledger with ranges := recordOutputs ledger.ranges tx.2 outs, rows }
      { tables := { s.tables with
          satToSatpoint := if config.indexSats then rows else s.tables.satToSatpoint }
        cache := cacheOutputs s.cache tx.2 (outputEntries config tx.1.output ranges) } := by
  have hlookup := lookup_addOutputs (mem_outputs_ne htxids hnew) hlen
  have hcached : ∀ outpoint,
      (cacheOutputs s.cache tx.2 (outputEntries config tx.1.output ranges)).lookup outpoint =
      if outpoint.txid = tx.2 ∧ outpoint.vout.toNat < tx.1.output.length then
        (outputEntries config tx.1.output ranges)[outpoint.vout.toNat]?
      else s.cache.lookup outpoint := by
    intro outpoint
    have hlength := length_outputEntries config hranges
    rw [← hlength]
    exact lookup_outputs s.cache tx.2 (by rw [hlength]; exact hlen) outpoint
  -- nothing in the index has the id of the transaction
  have hfresh : ∀ outpoint, outpoint ≠ OutPoint.null → outpoint.txid = tx.2 →
      s.cache.lookup outpoint = none ∧ s.tables.outpointToUtxoEntry outpoint = none := by
    intro outpoint hnull htxid
    have hnone : chain.utxos.lookup outpoint = none :=
      AList.lookup_eq_none.mpr fun hmem => mem_outputs_ne htxids hnew outpoint hmem htxid
    have hentry := h.entries outpoint hnull
    rw [hnone] at hentry
    exact Option.or_eq_none_iff.mp hentry
  constructor
  · intro outpoint hnull
    dsimp only
    rw [hcached, hlookup]
    by_cases htxid : outpoint.txid = tx.2
    · obtain ⟨hcacheNone, hstoredNone⟩ := hfresh outpoint hnull htxid
      rw [hstoredNone, hcacheNone, Option.or_none, if_pos htxid]
      by_cases hvout : outpoint.vout.toNat < tx.1.output.length
      · rw [if_pos ⟨htxid, hvout⟩, getElem?_outputEntries config hranges]
        refine congrArg (Option.map · _) (funext fun output => pushed_congr _ _ fun hsats => ?_)
        rw [hsame hsats]
        exact (recordOutputs_of_eq htxid).symm
      · rw [if_neg fun hboth => hvout hboth.2, List.getElem?_eq_none (by omega)]
        rfl
    · rw [if_neg fun hboth => htxid hboth.1, if_neg htxid, h.entries outpoint hnull]
      refine congrArg (Option.map · _) (funext fun output => pushed_congr _ _ fun _ => ?_)
      exact (recordOutputs_of_ne htxid).symm
  · intro outpoint hnull hmem
    rw [← AList.lookup_isSome] at hmem
    dsimp only at hmem
    rw [hcached] at hmem
    split at hmem
    · rename_i hboth
      intro hcommitted
      exact hnew (hboth.1 ▸ h.committed_txids outpoint hcommitted)
    · exact h.cached outpoint hnull (AList.lookup_isSome.mp hmem)
  · exact h.stored
  · intro outpoint hmem
    exact List.mem_cons_of_mem _ (h.committed_txids outpoint hmem)
  · exact h.committed_lost
  · obtain ⟨fresh, hlost, hnullStored, hnullCached⟩ := h.lost
    refine ⟨fresh, hlost, hnullStored, ?_⟩
    have hlast : OutPoint.null.vout.toNat = 2 ^ 32 - 1 := rfl
    dsimp only
    rw [hcached, if_neg (by rintro ⟨-, hvout⟩; omega), hnullCached]
  · exact h.scripts
  · dsimp only
    split
    · rfl
    · rename_i hsats
      rw [h.rows, if_neg hsats]
  · exact h.lost_sats
  · exact h.headers

end Outputs

end Lord.Index
