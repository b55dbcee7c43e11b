import Lord.Index.IndexRuns

/-! The tables do not depend on where the commits come between the blocks. -/

namespace Lord.Index

open Bitcoin Ordinals

/-- Calls of `update_index` one after the other, on an empty index. -/
def updateIndexes (config : IndexConfig) (calls : List UpdateCall) : Outcome Tables :=
  calls.foldlM (updateIndex config) Tables.empty

/-- The blocks of these calls. -/
def callBlocks (calls : List UpdateCall) : List BlockData :=
  calls.flatMap fun call => call.blocks.map FetchedBlock.block

/-! ### Calls as events -/

theorem eventBlocks_updateEvents (interval : Nat) (order : CacheOrder) (uncommitted : Nat)
    (blocks : List FetchedBlock) :
    eventBlocks (updateEvents interval order uncommitted blocks) =
      blocks.map FetchedBlock.block := by
  induction blocks generalizing uncommitted with
  | nil =>
    unfold updateEvents
    split <;> rfl
  | cons fetched rest ih =>
    have hstep : ∀ events, eventBlocks (.block fetched.block :: events) =
        fetched.block :: eventBlocks events := fun _ => rfl
    have hcommit : ∀ events, eventBlocks (.commit fetched.order :: events) = eventBlocks events :=
      fun _ => rfl
    rw [updateEvents, hstep, List.map_cons]
    split
    · rw [hcommit, ih]
    · rw [ih]

theorem eventBlocks_flatMap (calls : List UpdateCall) :
    eventBlocks (calls.flatMap UpdateCall.events) = callBlocks calls := by
  induction calls with
  | nil => rfl
  | cons call rest ih =>
    have happend : eventBlocks (call.events ++ rest.flatMap UpdateCall.events) =
        eventBlocks call.events ++ eventBlocks (rest.flatMap UpdateCall.events) :=
      List.filterMap_append
    rw [List.flatMap_cons, happend, ih, UpdateCall.events, eventBlocks_updateEvents]
    rfl

theorem commit_cache {config : IndexConfig} {s s' : IndexState} {order : CacheOrder}
    (h : commit config s order = .ok s') : s'.cache = ∅ := by
  obtain ⟨tables, -, heq⟩ := bind_eq_ok.mp h
  obtain rfl := Except.ok.inj heq
  rfl

/-- An update ends with a commit when anything is left to commit. -/
theorem cache_updateEvents {config : IndexConfig} {interval : Nat} {order : CacheOrder}
    {uncommitted : Nat} {blocks : List FetchedBlock} {s s' : IndexState}
    (hcache : uncommitted = 0 → s.cache = ∅)
    (hrun : runEvents config s (updateEvents interval order uncommitted blocks) = .ok s') :
    s'.cache = ∅ := by
  induction blocks generalizing uncommitted s with
  | nil =>
    unfold updateEvents at hrun
    split at hrun
    · obtain ⟨middle, hcommit, heq⟩ := bind_eq_ok.mp hrun
      obtain rfl := Except.ok.inj heq
      exact commit_cache hcommit
    · obtain rfl := Except.ok.inj hrun
      exact hcache (by omega)
  | cons fetched rest ih =>
    rw [updateEvents] at hrun
    obtain ⟨middle, -, hrest⟩ := bind_eq_ok.mp hrun
    split at hrest
    · obtain ⟨committed, hcommit, hrest⟩ := bind_eq_ok.mp hrest
      exact ih (fun _ => commit_cache hcommit) hrest
    · exact ih (fun hzero => absurd hzero (Nat.succ_ne_zero _)) hrest

/-- Calls one after the other are one run of their events, at whose end nothing is cached. -/
theorem foldlM_updateIndex (config : IndexConfig) (tables : Tables) (calls : List UpdateCall) :
    (∃ s, runEvents config ⟨tables, ∅⟩ (calls.flatMap UpdateCall.events) = .ok s ∧ s.cache = ∅ ∧
        calls.foldlM (updateIndex config) tables = .ok s.tables) ∨
      ∃ fault, runEvents config ⟨tables, ∅⟩ (calls.flatMap UpdateCall.events) = .error fault ∧
        calls.foldlM (updateIndex config) tables = .error fault := by
  induction calls generalizing tables with
  | nil => exact .inl ⟨_, rfl, rfl, rfl⟩
  | cons call rest ih =>
    rw [List.flatMap_cons, runEvents, List.foldlM_append, List.foldlM_cons, updateIndex]
    cases hcall : runEvents config ⟨tables, ∅⟩ call.events with
    | error fault =>
      rw [runEvents] at hcall
      rw [hcall]
      exact .inr ⟨fault, rfl, rfl⟩
    | ok s =>
      have hcache := cache_updateEvents (fun _ => rfl) hcall
      rw [runEvents] at hcall
      rw [hcall]
      have hs : s = ⟨s.tables, ∅⟩ := by rw [← hcache]
      have hrest := ih s.tables
      rw [← hs] at hrest
      exact hrest

/-! ### The tables of a chain -/

section Tables

variable {config : IndexConfig} {committed committed' : ChainState × Ledger} {chain : ChainState}
  {ledger : Ledger} {s s' : IndexState}

/-- Without a cache the tables are those of the chain. -/
theorem View.tables_eq (h : View config committed chain ledger s)
    (h' : View config committed' chain ledger s') (hcache : s.cache = ∅) (hcache' : s'.cache = ∅)
    (hheaders : s.tables.headers = s'.tables.headers) : s.tables = s'.tables := by
  have hstored : s.tables.outpointToUtxoEntry = entryAt config chain ledger := by
    funext outpoint
    have hview := h.overlay outpoint
    rwa [Index.overlay, hcache] at hview
  have hstored' : s'.tables.outpointToUtxoEntry = entryAt config chain ledger := by
    funext outpoint
    have hview := h'.overlay outpoint
    rwa [Index.overlay, hcache'] at hview
  have hscripts : s.tables.scriptPubkeyToOutpoint = s'.tables.scriptPubkeyToOutpoint := by
    funext script outpoint
    rw [Bool.eq_iff_iff, h.scripts, h'.scripts, hstored, hstored']
  have hrows : s.tables.satToSatpoint = s'.tables.satToSatpoint := h.rows.trans h'.rows.symm
  have hlost : s.tables.lostSats = s'.tables.lostSats := h.lost_sats.trans h'.lost_sats.symm
  cases hs : s.tables
  cases hs' : s'.tables
  rw [hs, hs'] at hscripts hrows hlost hheaders
  rw [hs] at hstored
  rw [hs'] at hstored'
  dsimp only at *
  rw [hstored, hstored', hscripts, hrows, hlost, hheaders]

/-- Two runs over the same valid blocks that end with nothing cached have the same tables. -/
theorem Indexed.tables_eq {events events' : List Event} (h : Indexed config events s)
    (h' : Indexed config events' s') (hblocks : eventBlocks events = eventBlocks events')
    (hcache : s.cache = ∅) (hcache' : s'.cache = ∅) : s.tables = s'.tables := by
  have hchain : chainAfter events' = chainAfter events := by
    rw [chainAfter, ← hblocks, chainAfter]
  have hledger : ledgerAfter events' = ledgerAfter events := by
    rw [ledgerAfter, ← hblocks, ledgerAfter]
  have hview := h'.view
  rw [hchain, hledger] at hview
  exact h.view.tables_eq hview hcache hcache' (by rw [h.headers, h'.headers, hblocks])

end Tables

/-! ### An index of neither sats nor addresses -/

/-- Such an index has nothing but the headers. -/
theorem runEvents_headers {config : IndexConfig}
    (hnone : (config.indexAddresses || config.indexSats) = false) (headers : List Header)
    (events : List Event) :
    runEvents config ⟨{ Tables.empty with headers }, ∅⟩ events =
      .ok ⟨{ Tables.empty with
        headers := headers ++ (eventBlocks events).map BlockData.header }, ∅⟩ := by
  induction events generalizing headers with
  | nil =>
    show Except.ok _ = _
    rw [show eventBlocks [] = [] from rfl, List.map_nil, List.append_nil]
  | cons event rest ih =>
    rw [runEvents, List.foldlM_cons]
    cases event with
    | block block =>
      have hstep : exec config ⟨{ Tables.empty with headers }, ∅⟩ (.block block) =
          .ok ⟨{ Tables.empty with headers := headers ++ [block.header] }, ∅⟩ := by
        show indexBlock _ _ _ = _
        rw [indexBlock, hnone]
        rfl
      rw [hstep]
      refine (ih (headers ++ [block.header])).trans ?_
      rw [List.append_assoc]
      rfl
    | commit order =>
      have hstep : exec config ⟨{ Tables.empty with headers }, ∅⟩ (.commit order) =
          .ok ⟨{ Tables.empty with headers }, ∅⟩ := by
        have hnil : order.order [] = [] := List.perm_nil.mp (order.perm [])
        show Index.commit _ _ _ = _
        rw [Index.commit, show (AList.entries (∅ : UtxoCache)) = [] from rfl, hnil]
        rfl
      rw [hstep]
      exact ih headers

/-! ### Schedules -/

/-- Calls over valid blocks end with the tables of their run, or with a commit that fails. -/
theorem updateIndexes_indexed {config : IndexConfig}
    (hfull : (config.indexAddresses || config.indexSats) = true) {calls : List UpdateCall}
    (hvalid : (applyBlocks (callBlocks calls)).isSome = true) :
    (∃ s, updateIndexes config calls = .ok s.tables ∧ s.cache = ∅ ∧
        Indexed config (calls.flatMap UpdateCall.events) s) ∨
      config.indexAddresses = true ∧ ∃ err, updateIndexes config calls = .error (.err err) := by
  rw [← eventBlocks_flatMap] at hvalid
  rcases foldlM_updateIndex config Tables.empty calls with ⟨s, hrun, hcache, hcalls⟩ |
    ⟨fault, hrun, hcalls⟩
  · rcases indexed_run hfull hvalid with ⟨s', hrun', h⟩ | ⟨-, err, hrun'⟩
    · obtain rfl := Except.ok.inj (hrun.symm.trans hrun')
      exact .inl ⟨s, hcalls, hcache, h⟩
    · cases hrun.symm.trans hrun'
  · rcases indexed_run hfull hvalid with ⟨s', hrun', h⟩ | ⟨haddresses, err, hrun'⟩
    · cases hrun.symm.trans hrun'
    · obtain rfl := Except.error.inj (hrun.symm.trans hrun')
      exact .inr ⟨haddresses, err, hcalls⟩

/-- Over the blocks of a valid chain there are tables that all sequences of calls end with,
whatever their commit intervals and their savepoints are, unless LMDB refuses an address. -/
theorem updateIndexes_eq (config : IndexConfig) (blocks : List BlockData)
    (hvalid : (applyBlocks blocks).isSome = true) :
    ∃ tables, ∀ calls, callBlocks calls = blocks →
      updateIndexes config calls = .ok tables ∨
        config.indexAddresses = true ∧ ∃ err, updateIndexes config calls = .error (.err err) := by
  by_cases hfull : (config.indexAddresses || config.indexSats) = true
  · by_cases hany : ∃ calls tables, callBlocks calls = blocks ∧
        updateIndexes config calls = .ok tables
    · obtain ⟨first, tables, hfirst, htables⟩ := hany
      refine ⟨tables, fun calls hcalls => ?_⟩
      rcases updateIndexes_indexed hfull (hcalls.symm ▸ hvalid) with ⟨s, hok, hcache, h⟩ | herr
      · rcases updateIndexes_indexed hfull (hfirst.symm ▸ hvalid) with
          ⟨s', hok', hcache', h'⟩ | ⟨-, err, herr'⟩
        · have heq : s.tables = s'.tables := h.tables_eq h'
            (by rw [eventBlocks_flatMap, eventBlocks_flatMap, hcalls, hfirst]) hcache hcache'
          rw [hok, heq, ← hok', htables]
          exact .inl rfl
        · cases htables.symm.trans herr'
      · exact .inr herr
    · refine ⟨Tables.empty, fun calls hcalls => ?_⟩
      rcases updateIndexes_indexed hfull (hcalls.symm ▸ hvalid) with ⟨s, hok, -⟩ | herr
      · exact absurd ⟨calls, _, hcalls, hok⟩ hany
      · exact .inr herr
  · refine ⟨{ Tables.empty with headers := blocks.map BlockData.header }, fun calls hcalls => .inl ?_⟩
    have hrun := runEvents_headers (Bool.not_eq_true _ ▸ hfull) []
      (calls.flatMap UpdateCall.events)
    rw [eventBlocks_flatMap, hcalls, List.nil_append] at hrun
    rcases foldlM_updateIndex config Tables.empty calls with ⟨s, hok, -, hcalls⟩ | ⟨fault, herr, -⟩
    · obtain rfl := Except.ok.inj (hrun.symm.trans hok)
      exact hcalls
    · cases hrun.symm.trans herr

/-- The example blocks end with the same tables in every schedule. -/
theorem updateIndexes_eq_block :
    ∃ tables, ∀ calls, callBlocks calls = eventBlocks exampleEvents →
      updateIndexes ⟨true, false⟩ calls = .ok tables := by
  obtain ⟨tables, h⟩ := updateIndexes_eq ⟨true, false⟩ (eventBlocks exampleEvents) (by decide +kernel)
  refine ⟨tables, fun calls hcalls => ?_⟩
  rcases h calls hcalls with hok | ⟨haddresses, -⟩
  · exact hok
  · cases haddresses

end Lord.Index
