import Lord.Index.View

/-! Indexing a valid block and committing the cache keep the view of the chain. -/

namespace Lord.Index

open Bitcoin Ordinals

/-! ### Transactions -/

/-- The view between the transactions of a block. -/
structure BlockView (config : IndexConfig) (committed : ChainState × Ledger)
    (s : ChainState × Nat) (l : Ledger × List SatRange) (st : BlockState) : Prop where
  pending : Pending s l
  view : View config committed s.1 l.1 st.index
  coinbase : config.indexSats = true → st.coinbaseInputs = l.2
  lost : st.lostSatRanges = []

section Transactions

variable {config : IndexConfig} {committed : ChainState × Ledger} {s s' : ChainState × Nat}
  {l : Ledger × List SatRange} {st : BlockState} {tx : Transaction × Bytes32}

theorem BlockView.transaction (h : BlockView config committed s l st)
    (happly : applyTransaction s tx = some s') :
    ∃ st', indexTransaction config false st tx = .ok st' ∧
      BlockView config committed s' (ledgerTransaction l tx) st' ∧
      st'.index.tables.headers = st.index.tables.headers := by
  have hpending := h.pending.transaction happly
  obtain ⟨value, utxos, hspend, hnew, hlen, hvalue, rfl⟩ := applyTransaction_eq_some.mp happly
  obtain ⟨outs, leftover, rows, hassigned⟩ := h.pending.assign hspend hvalue
  obtain ⟨hspent, -⟩ := h.pending.conserved.spend hspend
  have houts : outs.length = tx.1.output.length := by
    simpa using congrArg List.length hassigned.values
  obtain ⟨entries, index, htake, hentries, hview, hheaders⟩ :=
    h.view.takeEntries h.pending.conserved.not_null hspend
  obtain ⟨parsed, hparsed, hranges⟩ := parse_entries hentries
    "called `Result::unwrap()` on an `Err` value"
  have hinBlock : ∀ outpoint ∈ tx.1.input.map TxIn.previousOutput,
      ∀ range ∈ l.1.ranges outpoint, InBlock range := fun outpoint hmem range hrange =>
    hspent.pool_inBlock range
      (List.mem_append_left _ (List.mem_flatMap.mpr ⟨outpoint, hmem, hrange⟩))
  rw [ledgerTransaction_eq hassigned] at hpending ⊢
  unfold indexTransaction
  rw [if_neg (by decide), htake]
  simp only [bind, Except.bind]
  rw [hparsed]
  simp only
  rw [if_neg (Nat.not_lt.mpr hlen.le)]
  by_cases hsats : config.indexSats = true
  · have hrows : index.tables.satToSatpoint = l.1.rows := by
      rw [hview.rows, if_pos hsats]
    rw [if_pos hsats, if_neg (by decide), hranges hsats hinBlock]
    simp only
    rw [hrows, hassigned.run]
    have hcreated := hview.create hspent.txids hnew hlen outs rows houts houts fun _ => rfl
    rw [if_pos hsats] at hcreated
    refine ⟨_, rfl, ⟨hpending, hcreated, fun _ => ?_, h.lost⟩, hheaders⟩
    rw [if_neg (by decide), h.coinbase hsats]
  · have hcreated := hview.create hspent.txids hnew hlen (tx.1.output.map fun _ => []) rows houts
      (List.length_map _) fun hon => absurd hon hsats
    rw [if_neg hsats] at hcreated ⊢
    exact ⟨_, rfl, ⟨hpending, hcreated, fun hon => absurd hon hsats, h.lost⟩, hheaders⟩

/-- Lost ranges are merged into the entry of the null outpoint. -/
theorem View.recordLost (st : BlockState) {chain : ChainState} {ledger : Ledger}
    (h : View config committed chain ledger st.index) (leftover : List SatRange)
    (hlost : st.lostSatRanges = if config.indexSats then leftover else []) :
    ∃ index, Index.recordLost config st = .ok index ∧
      View config committed chain
        { ledger with
          lost := ledger.lost ++ leftover
          rows := (putLostRanges ledger.rows (total ledger.lost) leftover).1 } index ∧
      index.tables.headers = st.index.tables.headers := by
  obtain ⟨fresh, hfresh, hnullStored, hnullCached⟩ := h.lost
  have hjoin : ledger.lost ++ leftover = committed.2.lost ++ (fresh ++ leftover) := by
    rw [hfresh, List.append_assoc]
  unfold Index.recordLost
  by_cases hsats : config.indexSats = true
  · rw [if_pos hsats] at hlost
    rw [hlost]
    cases leftover with
    | nil =>
      refine ⟨st.index, rfl, ?_, rfl⟩
      rw [List.append_nil]
      exact { h with }
    | cons first rest =>
      have hcached : (st.index.cache.lookup OutPoint.null).getD (UtxoEntry.empty config) =
          UtxoEntry.pushed config fresh 0 [] := by
        rw [hnullCached, nullEntry, UtxoEntry.empty_eq]
        by_cases hempty : fresh = []
        · rw [if_neg (fun hboth => hboth.2 hempty), hempty]
          rfl
        · rw [if_pos ⟨hsats, hempty⟩]
          rfl
      have hrows : st.index.tables.satToSatpoint = ledger.rows := by rw [h.rows, if_pos hsats]
      have hcount : st.index.tables.lostSats = total ledger.lost := by
        rw [h.lost_sats, if_pos hsats]
      have hput : (putLostRanges ledger.rows (total ledger.lost) (first :: rest)).2 =
          total (ledger.lost ++ first :: rest) := by
        rw [putLostRanges_snd, total_append]
      dsimp only [List.isEmpty_cons]
      rw [if_neg (by decide), hcached, UtxoEntry.merged_pushed hsats, hrows, hcount]
      refine ⟨_, rfl, ?_, rfl⟩
      constructor
      · intro outpoint hnull
        dsimp only
        rw [AList.lookup_insert_ne hnull]
        exact h.entries outpoint hnull
      · intro outpoint hnull hmem
        rw [AList.mem_insert] at hmem
        exact h.cached outpoint hnull (hmem.resolve_left hnull)
      · exact h.stored
      · exact h.committed_txids
      · exact h.committed_lost
      · refine ⟨fresh ++ first :: rest, hjoin, hnullStored, ?_⟩
        dsimp only
        rw [AList.lookup_insert, nullEntry, if_pos ⟨hsats, by simp⟩]
      · exact h.scripts
      · exact (if_pos hsats).symm
      · dsimp only
        rw [if_pos hsats, hput]
      · exact h.headers
  · rw [if_neg hsats] at hlost
    rw [hlost]
    refine ⟨st.index, rfl, ?_, rfl⟩
    have hnone : ∀ lost, nullEntry config lost = none := fun lost =>
      if_neg fun hboth => hsats hboth.1
    exact { h with
      lost := ⟨fresh ++ leftover, hjoin, hnullStored, by rw [hnullCached, hnone, hnone]⟩
      rows := by rw [h.rows, if_neg hsats, if_neg hsats]
      lost_sats := by rw [h.lost_sats, if_neg hsats, if_neg hsats] }

/-- The coinbase, and then what it leaves over. -/
theorem BlockView.coinbase_lost (h : BlockView config committed s l st) {chain : ChainState}
    (happly : applyCoinbase s tx = some chain) :
    ∃ st' index, indexTransaction config true st tx = .ok st' ∧ recordLost config st' = .ok index ∧
      View config committed chain (ledgerCoinbase l tx) index ∧
      index.tables.headers = st.index.tables.headers := by
  obtain ⟨hnew, hlen, hvalue, rfl⟩ := applyCoinbase_eq_some.mp happly
  obtain ⟨outs, leftover, rows, hassigned⟩ := h.pending.assign_coinbase hvalue
  have houts : outs.length = tx.1.output.length := by
    simpa using congrArg List.length hassigned.values
  have htxids := h.pending.conserved.txids
  rw [ledgerCoinbase_eq hassigned]
  unfold indexTransaction
  simp only [if_true, bind, Except.bind, List.mapM_nil, pure, Except.pure]
  rw [if_neg (Nat.not_lt.mpr hlen.le)]
  by_cases hsats : config.indexSats = true
  · have hrows : st.index.tables.satToSatpoint = l.1.rows := by
      rw [h.view.rows, if_pos hsats]
    rw [if_pos hsats, h.coinbase hsats, hrows, hassigned.run]
    simp only
    have hview := h.view.create htxids hnew hlen outs rows houts houts fun _ => rfl
    rw [if_pos hsats] at hview
    obtain ⟨index, hrun, hview, hheaders⟩ := View.recordLost
      ⟨_, l.2, st.lostSatRanges ++ leftover⟩ hview leftover (by rw [h.lost, if_pos hsats]; rfl)
    exact ⟨_, index, rfl, hrun, { hview with }, hheaders⟩
  · have hview := h.view.create htxids hnew hlen (tx.1.output.map fun _ => []) rows houts
      (List.length_map _) fun hon => absurd hon hsats
    rw [if_neg hsats] at hview ⊢
    obtain ⟨index, hrun, hview, hheaders⟩ := View.recordLost
      ⟨_, st.coinbaseInputs, st.lostSatRanges⟩ hview leftover (by rw [h.lost, if_neg hsats])
    exact ⟨_, index, rfl, hrun, { hview with }, hheaders⟩

theorem BlockView.foldlM {txs : List (Transaction × Bytes32)}
    (h : BlockView config committed s l st) (happly : txs.foldlM applyTransaction s = some s') :
    ∃ st', txs.foldlM (indexTransaction config false) st = .ok st' ∧
      BlockView config committed s' (txs.foldl ledgerTransaction l) st' ∧
      st'.index.tables.headers = st.index.tables.headers := by
  induction txs generalizing s l st with
  | nil =>
    obtain rfl : s = s' := by simpa using happly
    exact ⟨st, rfl, h, rfl⟩
  | cons tx txs ih =>
    rw [List.foldlM_cons, Option.bind_eq_bind, Option.bind_eq_some_iff] at happly
    obtain ⟨middle, hfirst, hrest⟩ := happly
    obtain ⟨st₁, hrun, hview, hheaders⟩ := h.transaction hfirst
    obtain ⟨st₂, hruns, hview', hheaders'⟩ := ih hview hrest
    refine ⟨st₂, ?_, hview', hheaders'.trans hheaders⟩
    rw [List.foldlM_cons, hrun]
    exact hruns

end Transactions

/-! ### Blocks -/

/-- Indexing a valid block succeeds and shows the chain after it. -/
theorem View.block {config : IndexConfig} {committed : ChainState × Ledger} {chain chain' : ChainState}
    {ledger : Ledger} {s : IndexState} {block : BlockData}
    (h : View config committed chain ledger s) (hconserved : Conserved chain.height chain ledger [])
    (hfull : (config.indexAddresses || config.indexSats) = true)
    (happly : applyBlock chain block = some chain') :
    ∃ s', indexBlock config s block = .ok s' ∧
      View config committed chain' (ledgerBlock chain.height ledger block) s' ∧
      s'.tables.headers = s.tables.headers ++ [block.header] := by
  obtain ⟨coinbase, rest, middle, last, hdata, hrest, hcoinbase, rfl⟩ :=
    applyBlock_eq_some.mp happly
  have hstart : BlockView config committed (chain, 0) (ledger, subsidyRanges chain.height)
      ⟨s, if config.indexSats then subsidyRanges s.tables.headers.length else [], []⟩ :=
    ⟨⟨hconserved.mint, by simp⟩, h, fun hsats => by rw [if_pos hsats, h.headers], rfl⟩
  obtain ⟨st, hruns, hview, hheaders⟩ := hstart.foldlM hrest
  obtain ⟨st', index, hrun, hlost, hview', hheaders'⟩ := hview.coinbase_lost hcoinbase
  have hentries : indexUtxoEntries config s block = .ok index := by
    rw [indexUtxoEntries, hdata, List.drop_one, List.tail_cons, hruns]
    show (([coinbase].foldlM (indexTransaction config true) st) >>= _) = _
    rw [List.foldlM_cons, hrun]
    exact hlost
  have hall : index.tables.headers = s.tables.headers := hheaders'.trans hheaders
  have hheight : last.height = chain.height := by
    rw [height_applyCoinbase hcoinbase, height_foldlM hrest]
  have hblock : indexBlock config s block = .ok { index with
      tables := { index.tables with headers := index.tables.headers ++ [block.header] } } := by
    rw [indexBlock, if_pos hfull, hentries]
    rfl
  refine ⟨_, hblock, ?_, congrArg (· ++ [block.header]) hall⟩
  rw [ledgerBlock, hdata]
  exact { hview' with
    headers := by
      show (index.tables.headers ++ [block.header]).length = last.height + 1
      rw [List.length_append, hall, h.headers, hheight]
      rfl }

end Lord.Index
