import Lord.Index.Queries
import Lord.Index.SatTransfer

/-! What the queries answer of an index that a commit has left: the ranges and the places of the chain. -/

namespace Lord.Index

open Bitcoin Ordinals

theorem outpointAt_ne_null (txid : Bytes32) {k : Nat} (h : k + 1 < 2 ^ 32) :
    outpointAt txid k ≠ OutPoint.null := by
  intro heq
  have hvout : (outpointAt txid k).vout.toNat = 2 ^ 32 - 1 := by
    rw [heq]
    rfl
  rw [vout_outpointAt txid (by omega)] at hvout
  omega

/-- The rows of `OUTPOINT_TO_UTXO_ENTRY`, which `find` goes through. -/
structure EntryRows (tables : Tables) (rows : List (OutPoint × Bytes)) : Prop where
  keys : (rows.map Prod.fst).Nodup
  table : ∀ outpoint entry,
    (outpoint, entry) ∈ rows ↔ tables.outpointToUtxoEntry outpoint = some entry

/-- The index of a chain, with nothing in the cache. -/
structure Settled (config : IndexConfig) (chain : ChainState) (ledger : Ledger) (s : IndexState) :
    Prop where
  conserved : Conserved chain.height chain ledger []
  view : ∃ committed, View config committed chain ledger s
  cache : s.cache = ∅

/-- A run over valid blocks that ends in a commit leaves the index of their chain. -/
theorem settled_run {config : IndexConfig} (hsats : config.indexSats = true) {events : List Event}
    {order : CacheOrder} {chain : ChainState} {s : IndexState}
    (hvalid : applyBlocks (eventBlocks events) = some chain)
    (hrun : runEvents config .start (events ++ [.commit order]) = .ok s) :
    Settled config chain (ledgerBlocks (eventBlocks events)).2 s := by
  have hcache : s.cache = ∅ := by
    rw [runEvents_concat] at hrun
    obtain ⟨before, -, hcommit⟩ := bind_eq_ok.mp hrun
    obtain ⟨tables, -, heq⟩ := bind_eq_ok.mp hcommit
    rw [← Except.ok.inj heq]
  have hfull : (config.indexAddresses || config.indexSats) = true := by simp [hsats]
  have hblocks := eventBlocks_concat_commit events order
  have hchain : chainAfter (events ++ [.commit order]) = chain := by
    rw [chainAfter, hblocks, hvalid]
    rfl
  rcases indexed_run hfull (show (applyBlocks (eventBlocks (events ++ [.commit order]))).isSome = true by
    rw [hblocks, hvalid]; rfl) with ⟨reached, hreached, h⟩ | ⟨-, err, herr⟩
  · obtain rfl : reached = s := Except.ok.inj (hreached.symm.trans hrun)
    have hconserved := h.conserved
    have hview := h.view
    have hledger : ledgerAfter (events ++ [.commit order]) = (ledgerBlocks (eventBlocks events)).2 := by
      rw [ledgerAfter, hblocks]
    rw [hchain, hledger] at hconserved hview
    exact ⟨hconserved, ⟨_, hview⟩, hcache⟩
  · rw [herr] at hrun
    cases hrun

namespace Settled

variable {config : IndexConfig} {chain : ChainState} {ledger : Ledger} {s : IndexState}

theorem headers (h : Settled config chain ledger s) : s.tables.headers.length = chain.height := by
  obtain ⟨committed, hview⟩ := h.view
  exact hview.headers

theorem rangesAt_eq (h : Settled config chain ledger s) (hsats : config.indexSats = true)
    (outpoint : OutPoint) : rangesAt chain ledger outpoint =
      ((s.tables.outpointToUtxoEntry outpoint).map (entryRanges config)).getD [] := by
  obtain ⟨committed, hview⟩ := h.view
  rw [← hview.storedRanges h.conserved hsats, storedRanges, overlay, h.cache]
  rfl

/-- The ranges that `list` answers are those of the chain. -/
theorem served {env : Query.Env} (h : Settled env.config chain ledger s)
    (hsats : env.config.indexSats = true) {outpoint : OutPoint} {ranges : List SatRange}
    (hlist : Query.storedRanges env s.tables outpoint = .ok (some ranges)) :
    ranges = rangesAt chain ledger outpoint := by
  rw [h.rangesAt_eq hsats]
  unfold Query.storedRanges at hlist
  cases hentry : s.tables.outpointToUtxoEntry outpoint with
  | none =>
    rw [hentry] at hlist
    cases hlist
  | some entry =>
    rw [hentry] at hlist
    obtain ⟨loaded, hload, heq⟩ := bind_eq_ok.mp hlist
    obtain rfl := Option.some.inj (Except.ok.inj heq)
    exact (entryRanges_of_load hload).symm

/-- An unspent output has an answer. -/
theorem serves {env : Query.Env} (h : Settled env.config chain ledger s)
    (hsats : env.config.indexSats = true) {outpoint : OutPoint} (hmem : outpoint ∈ chain.utxos) :
    Query.storedRanges env s.tables outpoint = .ok (some (rangesAt chain ledger outpoint)) := by
  obtain ⟨committed, hview⟩ := h.view
  have hnull : outpoint ≠ OutPoint.null := by
    rintro rfl
    exact h.conserved.not_null hmem
  obtain ⟨output, hlookup⟩ := Option.isSome_iff_exists.mp (AList.lookup_isSome.mpr hmem)
  have hentry := hview.entries outpoint hnull
  rw [h.cache, hlookup] at hentry
  have hstored : s.tables.outpointToUtxoEntry outpoint =
      some (outputEntry env.config ledger outpoint output) := hentry
  have hload : loadRanges env.config (outputEntry env.config ledger outpoint output) =
      .ok (SatRange.loadAll (SatRange.storeAll (ledger.ranges outpoint))) := by
    rw [loadRanges, outputEntry, UtxoEntry.parse_pushed _ _ output.value.toNat_lt, if_pos hsats]
    rfl
  rw [SatRange.loadAll_storeAll fun range hrange =>
    (h.conserved.held_inBlock outpoint hmem range hrange).fits] at hload
  rw [Query.storedRanges, hstored]
  dsimp only
  rw [hload, rangesAt, if_neg hnull, if_pos hmem]
  rfl

/-- Only unspent outputs have an entry. -/
theorem mem_of_entry (h : Settled config chain ledger s) {outpoint : OutPoint}
    (hne : outpoint ≠ OutPoint.null) {entry : Bytes}
    (hentry : s.tables.outpointToUtxoEntry outpoint = some entry) : outpoint ∈ chain.utxos := by
  obtain ⟨committed, hview⟩ := h.view
  by_contra hnot
  have hnone := hview.entries outpoint hne
  rw [h.cache, hentry, AList.lookup_eq_none.mpr hnot] at hnone
  cases hnone

theorem mem_of_stored {env : Query.Env} (h : Settled env.config chain ledger s) {outpoint : OutPoint}
    (hne : outpoint ≠ OutPoint.null) {ranges : List SatRange}
    (hlist : Query.storedRanges env s.tables outpoint = .ok (some ranges)) :
    outpoint ∈ chain.utxos := by
  unfold Query.storedRanges at hlist
  cases hentry : s.tables.outpointToUtxoEntry outpoint with
  | none =>
    rw [hentry] at hlist
    cases hlist
  | some entry => exact h.mem_of_entry hne hentry

theorem rows_iff (h : Settled config chain ledger s) (hsats : config.indexSats = true) (sat : Nat)
    (point : SatPoint) : s.tables.satToSatpoint sat = some point ↔
      (FirstSat sat ∧ sat < Height.startingSat s.tables.headers.length) ∧
        (sats (rangesAt chain ledger point.outpoint))[point.offset]? = some sat := by
  obtain ⟨committed, hview⟩ := h.view
  rw [hview.rows, if_pos hsats, h.headers, h.conserved.rows_iff]

/-- `find` answers where the sats of the chain lie. -/
theorem find_eq (h : Settled config chain ledger s) (hsats : config.indexSats = true)
    {rows : List (OutPoint × Bytes)} (hrows : EntryRows s.tables rows) {outpoint : OutPoint} {i sat : Nat}
    (hsat : (sats (rangesAt chain ledger outpoint))[i]? = some sat) :
    find config s.tables rows sat = .ok (some ⟨outpoint, i⟩) := by
  obtain ⟨committed, hview⟩ := h.view
  have hholds := hview.holdsMined h.conserved hsats h.cache hrows.keys hrows.table
  rw [h.rangesAt_eq hsats] at hsat
  cases hentry : s.tables.outpointToUtxoEntry outpoint with
  | none =>
    rw [hentry] at hsat
    cases hsat
  | some entry =>
    rw [hentry] at hsat
    exact hholds.find_eq ((hrows.table outpoint entry).mpr hentry) hsat

end Settled

end Lord.Index
