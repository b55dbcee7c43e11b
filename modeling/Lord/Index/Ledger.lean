import Lord.Index.SatFlow
import Lord.Lib.KeyedEntries
import Mathlib.Data.List.GetD

/-! Which sats lie in which unspent output of a chain, apart from how the index stores them: valid
blocks neither lose a sat nor make two of one. -/

namespace Lord.Index

open Bitcoin Ordinals

structure Ledger where
  /-- The ranges of the unspent outputs. -/
  ranges : OutPoint → List SatRange
  lost : List SatRange
  rows : SatTable

def Ledger.genesis : Ledger := ⟨fun _ => [], [], fun _ => none⟩

/-- The ranges after those of the outputs of a new transaction. -/
def recordOutputs (ranges : OutPoint → List SatRange) (txid : Bytes32)
    (outs : List (List SatRange)) : OutPoint → List SatRange :=
  fun outpoint =>
    if outpoint.txid = txid then outs.getD outpoint.vout.toNat [] else ranges outpoint

theorem recordOutputs_of_eq {ranges : OutPoint → List SatRange} {txid : Bytes32}
    {outs : List (List SatRange)} {outpoint : OutPoint} (h : outpoint.txid = txid) :
    recordOutputs ranges txid outs outpoint = outs.getD outpoint.vout.toNat [] :=
  if_pos h

theorem recordOutputs_of_ne {ranges : OutPoint → List SatRange} {txid : Bytes32}
    {outs : List (List SatRange)} {outpoint : OutPoint} (h : outpoint.txid ≠ txid) :
    recordOutputs ranges txid outs outpoint = ranges outpoint :=
  if_neg h

/-- A transaction, with the subsidy and the fees so far. -/
def ledgerTransaction (s : Ledger × List SatRange) (tx : Transaction × Bytes32) :
    Ledger × List SatRange :=
  let input := (tx.1.input.map TxIn.previousOutput).flatMap s.1.ranges
  match assignOutputs tx.2 0 tx.1.output input s.1.rows with
  | .ok (outs, leftover, rows) =>
    ({ s.1 with ranges := recordOutputs s.1.ranges tx.2 outs, rows }, s.2 ++ leftover)
  | .error _ => s

/-- What the coinbase leaves over is lost. -/
def ledgerCoinbase (s : Ledger × List SatRange) (tx : Transaction × Bytes32) : Ledger :=
  match assignOutputs tx.2 0 tx.1.output s.2 s.1.rows with
  | .ok (outs, leftover, rows) => {
      ranges := recordOutputs s.1.ranges tx.2 outs
      lost := s.1.lost ++ leftover
      rows := (putLostRanges rows (total s.1.lost) leftover).1 }
  | .error _ => s.1

def ledgerBlock (height : Nat) (ledger : Ledger) (block : BlockData) : Ledger :=
  match block.txdata with
  | [] => ledger
  | coinbase :: rest =>
    ledgerCoinbase (rest.foldl ledgerTransaction (ledger, subsidyRanges height)) coinbase

/-! ### Outputs of a transaction -/

/-- The outpoint of an output. -/
def outpointAt (txid : Bytes32) (vout : Nat) : OutPoint := ⟨txid, UInt32.ofNat vout⟩

theorem vout_outpointAt (txid : Bytes32) {i : Nat} (h : i < 2 ^ 32) :
    (outpointAt txid i).vout.toNat = i :=
  UInt32.toNat_ofNat_of_lt' h

theorem injOn_outpointAt (txid : Bytes32) {n : Nat} (h : n < 2 ^ 32) :
    Set.InjOn (outpointAt txid) {i | i < n} := by
  intro i (hi : i < n) j (hj : j < n) heq
  have hvout := congrArg (fun outpoint => outpoint.vout.toNat) heq
  rwa [vout_outpointAt txid (by omega), vout_outpointAt txid (by omega)] at hvout

/-- Values that are inserted for the outputs of a transaction are found under its id. -/
theorem lookup_outputs {β : Type*} (s : AList fun _ : OutPoint => β) (txid : Bytes32) {xs : List β}
    (hlen : xs.length < 2 ^ 32) (outpoint : OutPoint) :
    (KeyedEntries.insertAll (outpointAt txid) s xs).lookup outpoint =
      if outpoint.txid = txid ∧ outpoint.vout.toNat < xs.length then xs[outpoint.vout.toNat]?
      else s.lookup outpoint := by
  split
  · rename_i h
    have hself : outpoint = outpointAt txid outpoint.vout.toNat := by
      rw [outpointAt, UInt32.ofNat_toNat, ← h.1]
    rw [hself, KeyedEntries.lookup_insertAll (injOn_outpointAt txid hlen) h.2, ← hself]
  · rename_i h
    refine KeyedEntries.lookup_insertAll_of_ne fun i hi => ?_
    rintro rfl
    rw [vout_outpointAt txid (by omega)] at h
    exact h ⟨rfl, hi⟩

theorem mem_outputs_ne {utxos : UtxoSet} {txids : List Bytes32} {txid : Bytes32}
    (htxids : ∀ outpoint ∈ utxos, outpoint.txid ∈ txids) (hnew : txid ∉ txids) :
    ∀ outpoint ∈ utxos, outpoint.txid ≠ txid := by
  rintro outpoint hmem rfl
  exact hnew (htxids outpoint hmem)

theorem lookup_addOutputs {utxos : UtxoSet} {txid : Bytes32} {outputs : List TxOut}
    (hnew : ∀ outpoint ∈ utxos, outpoint.txid ≠ txid) (hlen : outputs.length < 2 ^ 32)
    (outpoint : OutPoint) :
    (addOutputs utxos txid outputs).lookup outpoint =
      if outpoint.txid = txid then outputs[outpoint.vout.toNat]? else utxos.lookup outpoint := by
  have h := lookup_outputs utxos txid hlen outpoint
  refine Eq.trans h ?_
  by_cases htxid : outpoint.txid = txid
  · by_cases hin : outpoint.vout.toNat < outputs.length
    · rw [if_pos ⟨htxid, hin⟩, if_pos htxid]
    · rw [if_neg fun hboth => hin hboth.2, if_pos htxid, List.getElem?_eq_none (by omega)]
      exact AList.lookup_eq_none.mpr fun hmem => hnew outpoint hmem htxid
  · rw [if_neg fun hboth => htxid hboth.1, if_neg htxid]

/-! ### Conservation -/

/-- The sats of the unspent outputs. -/
def held (utxos : UtxoSet) (ranges : OutPoint → List SatRange) : List Nat :=
  utxos.keys.flatMap fun outpoint => sats (ranges outpoint)

theorem held_congr {utxos : UtxoSet} {ranges ranges' : OutPoint → List SatRange}
    (h : ∀ outpoint ∈ utxos, ranges outpoint = ranges' outpoint) :
    held utxos ranges = held utxos ranges' :=
  List.flatMap_congr fun outpoint hmem => by rw [h outpoint (AList.mem_keys.mpr hmem)]

theorem held_erase {utxos : UtxoSet} (ranges : OutPoint → List SatRange) {outpoint : OutPoint}
    (h : outpoint ∈ utxos) :
    (held utxos ranges).Perm (sats (ranges outpoint) ++ held (utxos.erase outpoint) ranges) :=
  (KeyedEntries.keys_erase h).flatMap_right _

theorem range_flatMap_getD {α β : Type*} (xs : List (List α)) (f : List α → List β) :
    ((List.range xs.length).flatMap fun i => f (xs.getD i [])) = xs.flatMap f := by
  have hget : (List.range xs.length).map (fun i => xs.getD i []) = xs := by
    refine List.ext_getElem (by simp) fun i _ hi => ?_
    simp [hi]
  rw [← List.flatMap_map, hget]

/-- The sats of the outputs of a new transaction come to the others. -/
theorem held_addOutputs {utxos : UtxoSet} (ranges : OutPoint → List SatRange) {txid : Bytes32}
    {outputs : List TxOut} {outs : List (List SatRange)}
    (hnew : ∀ outpoint ∈ utxos, outpoint.txid ≠ txid) (hlen : outputs.length < 2 ^ 32)
    (houts : outs.length = outputs.length) :
    (held (addOutputs utxos txid outputs) (recordOutputs ranges txid outs)).Perm
      (outs.flatMap sats ++ held utxos ranges) := by
  have hkeys : (addOutputs utxos txid outputs).keys.Perm
      ((List.range outputs.length).map (outpointAt txid) ++ utxos.keys) :=
    KeyedEntries.keys_insertAll (injOn_outpointAt txid hlen) fun i _ hmem => hnew _ hmem rfl
  have hnewSats : (((List.range outputs.length).map (outpointAt txid)).flatMap fun outpoint =>
      sats (recordOutputs ranges txid outs outpoint)) = outs.flatMap sats := by
    rw [List.flatMap_map, ← range_flatMap_getD outs sats, houts]
    refine List.flatMap_congr fun i hi => ?_
    rw [List.mem_range] at hi
    rw [recordOutputs, vout_outpointAt txid (by omega)]
    exact congrArg sats (if_pos rfl)
  have hold : held utxos (recordOutputs ranges txid outs) = held utxos ranges :=
    held_congr fun outpoint hmem => recordOutputs_of_ne (hnew outpoint hmem)
  refine (hkeys.flatMap_right _).trans ?_
  rw [List.flatMap_append, hnewSats]
  exact .of_eq (congrArg _ hold)

/-- The sats of the blocks so far, where the pool holds those of the transactions that are yet to
be assigned. -/
structure Conserved (blocks : Nat) (chain : ChainState) (ledger : Ledger) (pool : List SatRange) :
    Prop where
  txids : ∀ outpoint ∈ chain.utxos, outpoint.txid ∈ chain.txids
  not_null : OutPoint.null ∉ chain.utxos
  values : ∀ outpoint output, chain.utxos.lookup outpoint = some output →
    total (ledger.ranges outpoint) = output.value.toNat
  held_inBlock : ∀ outpoint ∈ chain.utxos, ∀ range ∈ ledger.ranges outpoint, InBlock range
  lost_inBlock : ∀ range ∈ ledger.lost, InBlock range
  pool_inBlock : ∀ range ∈ pool, InBlock range
  all_sats : (held chain.utxos ledger.ranges ++ (sats ledger.lost ++ sats pool)).Perm
    (List.range (Height.startingSat blocks))
  lost_total : total ledger.lost = chain.unclaimed
  held_rows : ∀ outpoint ∈ chain.utxos, ∀ i sat,
    (sats (ledger.ranges outpoint))[i]? = some sat → FirstSat sat →
    ledger.rows sat = some ⟨outpoint, i⟩
  lost_rows : ∀ i sat, (sats ledger.lost)[i]? = some sat → FirstSat sat →
    ledger.rows sat = some ⟨OutPoint.null, i⟩
  rows_only : ∀ sat point, ledger.rows sat = some point →
    FirstSat sat ∧ sat < Height.startingSat blocks

theorem Conserved.genesis : Conserved 0 ChainState.genesis Ledger.genesis [] where
  txids _ hmem := absurd hmem (List.not_mem_nil)
  not_null hmem := absurd hmem (List.not_mem_nil)
  values _ _ h := by simp [ChainState.genesis] at h
  held_inBlock _ hmem := absurd hmem (List.not_mem_nil)
  lost_inBlock := by simp [Ledger.genesis]
  pool_inBlock := by simp
  all_sats := .refl _
  lost_total := rfl
  held_rows _ hmem := absurd hmem (List.not_mem_nil)
  lost_rows := by simp [Ledger.genesis]
  rows_only := by simp [Ledger.genesis]

section Steps

variable {blocks : Nat} {chain : ChainState} {ledger : Ledger} {pool : List SatRange}

theorem sats_perm {a b : List SatRange} (h : a.Perm b) : (sats a).Perm (sats b) :=
  h.flatMap_right _

theorem Conserved.nodup (h : Conserved blocks chain ledger pool) :
    (held chain.utxos ledger.ranges ++ (sats ledger.lost ++ sats pool)).Nodup :=
  h.all_sats.nodup_iff.mpr List.nodup_range

theorem mem_held {utxos : UtxoSet} {ranges : OutPoint → List SatRange} {outpoint : OutPoint}
    {sat : Nat} (hmem : outpoint ∈ utxos) (hsat : sat ∈ sats (ranges outpoint)) :
    sat ∈ held utxos ranges :=
  List.mem_flatMap.mpr ⟨outpoint, AList.mem_keys.mp hmem, hsat⟩

/-- The order of the pool does not matter. -/
theorem Conserved.pool_perm (h : Conserved blocks chain ledger pool) {pool' : List SatRange}
    (hperm : pool.Perm pool') : Conserved blocks chain ledger pool' :=
  { h with
    pool_inBlock := fun range hrange => h.pool_inBlock range (hperm.mem_iff.mpr hrange)
    all_sats := (((sats_perm hperm).symm.append_left _).append_left _).trans h.all_sats }

/-- A block mines its subsidy. -/
theorem Conserved.mint (h : Conserved blocks chain ledger []) :
    Conserved (blocks + 1) chain ledger (subsidyRanges blocks) where
  txids := h.txids
  not_null := h.not_null
  values := h.values
  held_inBlock := h.held_inBlock
  lost_inBlock := h.lost_inBlock
  pool_inBlock := by
    intro range hrange
    unfold subsidyRanges at hrange
    split at hrange
    · obtain rfl := List.mem_singleton.mp hrange
      exact ⟨blocks, le_rfl, by dsimp only; omega, le_rfl⟩
    · cases hrange
  all_sats := by
    have hmined : sats (subsidyRanges blocks) =
        List.range' (Height.startingSat blocks) (Height.subsidy blocks) := by
      unfold subsidyRanges
      split
      · simp
      · rename_i hzero
        rw [Nat.eq_zero_of_not_pos hzero]
        rfl
    have hall : List.range (Height.startingSat (blocks + 1)) =
        List.range (Height.startingSat blocks) ++ sats (subsidyRanges blocks) := by
      rw [hmined, Height.startingSat_succ, List.range_eq_range', List.range_eq_range',
        ← List.range'_append_1, Nat.zero_add]
    have hsats := h.all_sats
    rw [sats_nil, List.append_nil] at hsats
    rw [hall, ← List.append_assoc]
    exact hsats.append_right _
  lost_total := h.lost_total
  held_rows := h.held_rows
  lost_rows := h.lost_rows
  rows_only sat point hrow := by
    obtain ⟨hfirst, hlt⟩ := h.rows_only sat point hrow
    have := Height.startingSat_mono (show blocks ≤ blocks + 1 by omega)
    exact ⟨hfirst, by omega⟩

/-- The sats of an output that is spent go to the pool. -/
theorem Conserved.erase (h : Conserved blocks chain ledger pool) {outpoint : OutPoint}
    (hmem : outpoint ∈ chain.utxos) :
    Conserved blocks { chain with utxos := chain.utxos.erase outpoint } ledger
      (ledger.ranges outpoint ++ pool) where
  txids other hother := h.txids other (AList.mem_erase.mp hother).2
  not_null hnull := h.not_null (AList.mem_erase.mp hnull).2
  values other output hlookup := by
    refine h.values other output ?_
    rwa [AList.lookup_erase_ne] at hlookup
    rintro rfl
    rw [AList.lookup_erase] at hlookup
    cases hlookup
  held_inBlock other hother := h.held_inBlock other (AList.mem_erase.mp hother).2
  lost_inBlock := h.lost_inBlock
  pool_inBlock range hrange := by
    rcases List.mem_append.mp hrange with hrange | hrange
    · exact h.held_inBlock outpoint hmem range hrange
    · exact h.pool_inBlock range hrange
  all_sats := by
    have hall := h.all_sats
    have herase := held_erase ledger.ranges hmem
    rw [List.perm_iff_count] at hall herase ⊢
    intro sat
    have := hall sat
    have := herase sat
    simp only [sats_append, List.count_append] at *
    omega
  lost_total := h.lost_total
  held_rows other hother := h.held_rows other (AList.mem_erase.mp hother).2
  lost_rows := h.lost_rows
  rows_only := h.rows_only

/-- The sats of the inputs of a transaction go to the pool. -/
theorem Conserved.spend (h : Conserved blocks chain ledger pool) {outpoints : List OutPoint}
    {value : Nat} {utxos : UtxoSet} (hspend : Index.spend chain.utxos outpoints = some (value, utxos)) :
    Conserved blocks { chain with utxos } ledger (outpoints.flatMap ledger.ranges ++ pool) ∧
      total (outpoints.flatMap ledger.ranges) = value := by
  induction outpoints generalizing chain pool value with
  | nil =>
    simp only [Index.spend, Option.some.injEq, Prod.mk.injEq] at hspend
    obtain ⟨rfl, rfl⟩ := hspend
    exact ⟨h, rfl⟩
  | cons outpoint rest ih =>
    simp only [Index.spend, Option.bind_eq_bind, Option.bind_eq_some_iff, Option.some.injEq,
      Prod.mk.injEq, Prod.exists] at hspend
    obtain ⟨output, hlookup, others, utxos', hrest, rfl, rfl⟩ := hspend
    have hmem : outpoint ∈ chain.utxos := AList.lookup_isSome.mp (by rw [hlookup]; rfl)
    obtain ⟨hconserved, htotal⟩ := ih (h.erase hmem) hrest
    refine ⟨hconserved.pool_perm ?_, ?_⟩
    · rw [List.flatMap_cons, List.append_assoc]
      exact List.perm_append_comm_assoc _ _ _
    · rw [List.flatMap_cons, total_append, htotal, h.values outpoint output hlookup]

/-- The outputs of a transaction take their sats from the pool. -/
theorem Conserved.create {input : List SatRange}
    (h : Conserved blocks chain ledger (input ++ pool)) {tx : Transaction × Bytes32}
    {outs : List (List SatRange)} {leftover : List SatRange} {rows : SatTable}
    (hnew : tx.2 ∉ chain.txids) (hlen : tx.1.output.length < 2 ^ 32)
    (hassigned : Assigned tx.2 0 tx.1.output input ledger.rows outs leftover rows) :
    Conserved blocks
      { chain with
        utxos := addOutputs chain.utxos tx.2 tx.1.output
        txids := tx.2 :: chain.txids }
      { ledger with ranges := recordOutputs ledger.ranges tx.2 outs, rows }
      (leftover ++ pool) := by
  have hother := mem_outputs_ne h.txids hnew
  have hlookup := lookup_addOutputs hother hlen
  have houts : outs.length = tx.1.output.length := by
    simpa using congrArg List.length hassigned.values
  have hmem : ∀ {outpoint}, outpoint ∈ addOutputs chain.utxos tx.2 tx.1.output →
      outpoint.txid = tx.2 ∧ outpoint.vout.toNat < outs.length ∨
        outpoint.txid ≠ tx.2 ∧ outpoint ∈ chain.utxos := by
    intro outpoint hin
    rw [← AList.lookup_isSome, hlookup] at hin
    split at hin
    · rename_i htxid
      rw [isSome_getElem?] at hin
      exact .inl ⟨htxid, by omega⟩
    · rename_i htxid
      exact .inr ⟨htxid, AList.lookup_isSome.mp hin⟩
  have hsplit := h.all_sats
  rw [sats_append, ← hassigned.sats] at hsplit
  have hnodup := hsplit.nodup_iff.mpr List.nodup_range
  simp only [List.nodup_append', List.disjoint_append_right, List.disjoint_append_left] at hnodup
  obtain ⟨-, ⟨-, ⟨⟨hnodup, -⟩, -⟩, ⟨hlost, -⟩, -⟩, -, ⟨hheld, -⟩, -⟩ := hnodup
  -- an old sat keeps its row
  have hsame : ∀ sat, sat ∉ outs.flatMap sats → rows sat = ledger.rows sat := fun sat hnot =>
    hassigned.same sat fun hmoved => hnot hmoved.2
  constructor
  · intro outpoint hin
    rcases hmem hin with ⟨htxid, -⟩ | ⟨-, hold⟩
    · exact List.mem_cons.mpr (.inl htxid)
    · exact List.mem_cons_of_mem _ (h.txids outpoint hold)
  · intro hin
    rcases hmem hin with ⟨-, hvout⟩ | ⟨-, hold⟩
    · have hlast : OutPoint.null.vout.toNat = 2 ^ 32 - 1 := rfl
      omega
    · exact h.not_null hold
  · intro outpoint output hout
    dsimp only at hout ⊢
    rw [hlookup] at hout
    split at hout <;> rename_i htxid
    · have hvalue := congrArg (fun values => values[outpoint.vout.toNat]?) hassigned.values
      rw [List.getElem?_map, List.getElem?_map, hout] at hvalue
      obtain ⟨ranges, hranges, htotal⟩ := Option.map_eq_some_iff.mp hvalue
      rw [recordOutputs_of_eq htxid, List.getD_eq_getElem?_getD, hranges]
      exact htotal
    · rw [recordOutputs_of_ne htxid]
      exact h.values outpoint output hout
  · intro outpoint hin
    dsimp only
    rcases hmem hin with ⟨htxid, hvout⟩ | ⟨htxid, hold⟩
    · rw [recordOutputs_of_eq htxid, List.getD_eq_getElem _ _ hvout]
      exact hassigned.outs_inBlock _ (List.getElem_mem hvout)
    · rw [recordOutputs_of_ne htxid]
      exact h.held_inBlock outpoint hold
  · exact h.lost_inBlock
  · intro range hrange
    rcases List.mem_append.mp hrange with hrange | hrange
    · exact hassigned.rest_inBlock range hrange
    · exact h.pool_inBlock range (List.mem_append_right _ hrange)
  · have hnewSats := held_addOutputs ledger.ranges hother hlen houts
    rw [List.perm_iff_count] at hsplit hnewSats ⊢
    intro sat
    have := hsplit sat
    have := hnewSats sat
    simp only [sats_append, List.count_append] at *
    omega
  · exact h.lost_total
  · intro outpoint hin i sat hsat hfirst
    dsimp only at hsat ⊢
    rcases hmem hin with ⟨htxid, hvout⟩ | ⟨htxid, hold⟩
    · rw [recordOutputs_of_eq htxid, List.getD_eq_getElem _ _ hvout] at hsat
      rw [hassigned.moved hnodup _ _ i sat (List.getElem?_eq_getElem hvout) hsat hfirst,
        Nat.zero_add, UInt32.ofNat_toNat, ← htxid]
    · rw [recordOutputs_of_ne htxid] at hsat
      rw [hsame sat fun hmoved => hheld (mem_held hold (List.mem_of_getElem? hsat)) hmoved]
      exact h.held_rows outpoint hold i sat hsat hfirst
  · intro i sat hsat hfirst
    dsimp only at hsat ⊢
    rw [hsame sat fun hmoved => hlost (List.mem_of_getElem? hsat) hmoved]
    exact h.lost_rows i sat hsat hfirst
  · intro sat point hrow
    by_cases hmoved : FirstSat sat ∧ sat ∈ outs.flatMap sats
    · refine ⟨hmoved.1, List.mem_range.mp (hsplit.mem_iff.mp ?_)⟩
      simp only [List.mem_append]
      exact .inr (.inr (.inl (.inl hmoved.2)))
    · have hrow : rows sat = some point := hrow
      rw [hassigned.same sat hmoved] at hrow
      exact h.rows_only sat point hrow

/-- What the coinbase leaves over is lost. -/
theorem Conserved.lose (h : Conserved blocks chain ledger pool) :
    Conserved blocks { chain with unclaimed := chain.unclaimed + total pool }
      { ledger with
        lost := ledger.lost ++ pool
        rows := (putLostRanges ledger.rows (total ledger.lost) pool).1 } [] := by
  have hplaced := putLostRanges_spec ledger.rows (total ledger.lost) h.pool_inBlock
  generalize (putLostRanges ledger.rows (total ledger.lost) pool).1 = rows' at *
  have hnodup := h.nodup
  simp only [List.nodup_append', List.disjoint_append_right] at hnodup
  obtain ⟨-, ⟨-, hpool, hlost⟩, -, hheld⟩ := hnodup
  refine {
    txids := h.txids
    not_null := h.not_null
    values := h.values
    held_inBlock := h.held_inBlock
    lost_inBlock := ?_
    pool_inBlock := by simp
    all_sats := by simpa using h.all_sats
    lost_total := by rw [total_append, h.lost_total]
    held_rows := ?_
    lost_rows := ?_
    rows_only := ?_ }
  · intro range hrange
    rcases List.mem_append.mp hrange with hrange | hrange
    · exact h.lost_inBlock range hrange
    · exact h.pool_inBlock range hrange
  · intro outpoint hin i sat hsat hfirst
    dsimp only at hsat ⊢
    have hnot : sat ∉ sats pool := hheld (mem_held hin (List.mem_of_getElem? hsat))
    rw [hplaced.same sat fun hmoved => hnot hmoved.2]
    exact h.held_rows outpoint hin i sat hsat hfirst
  · intro i sat hsat hfirst
    dsimp only at hsat ⊢
    rw [sats_append] at hsat
    by_cases hi : i < (sats ledger.lost).length
    · rw [List.getElem?_append_left hi] at hsat
      have hnot : sat ∉ sats pool := hlost (List.mem_of_getElem? hsat)
      rw [hplaced.same sat fun hmoved => hnot hmoved.2]
      exact h.lost_rows i sat hsat hfirst
    · rw [List.getElem?_append_right (by omega)] at hsat
      rw [hplaced.moved _ sat hsat hfirst hpool, length_sats]
      rw [length_sats] at hi
      congr 2
      omega
  · intro sat point hrow
    by_cases hmoved : FirstSat sat ∧ sat ∈ sats pool
    · refine ⟨hmoved.1, List.mem_range.mp (h.all_sats.mem_iff.mp ?_)⟩
      exact List.mem_append_right _ (List.mem_append_right _ hmoved.2)
    · have hrow : rows' sat = some point := hrow
      rw [hplaced.same sat hmoved] at hrow
      exact h.rows_only sat point hrow

end Steps

/-! ### Blocks -/

@[simp] theorem total_subsidyRanges (height : Nat) :
    total (subsidyRanges height) = Height.subsidy height := by
  unfold subsidyRanges
  split
  · rw [total_cons, total_nil]
    omega
  · rw [total_nil]
    omega

/-- Between the transactions of a block the pool is the subsidy and the fees. -/
structure Pending (s : ChainState × Nat) (l : Ledger × List SatRange) : Prop where
  conserved : Conserved (s.1.height + 1) s.1 l.1 l.2
  pool_total : total l.2 = Height.subsidy s.1.height + s.2

section Blocks

variable {s s' : ChainState × Nat} {l : Ledger × List SatRange} {tx : Transaction × Bytes32}
  {outs : List (List SatRange)} {leftover : List SatRange} {rows : SatTable}

theorem Assigned.total_leftover {txid : Bytes32} {outputs : List TxOut} {input : List SatRange}
    {rows rows' : SatTable} (h : Assigned txid 0 outputs input rows outs leftover rows') :
    outputsValue outputs + total leftover = total input := by
  have hlength := congrArg List.length h.sats
  rw [List.length_append, length_sats, length_sats, List.length_flatMap,
    List.map_congr_left fun ranges _ => length_sats ranges, h.values] at hlength
  exact hlength

theorem ledgerTransaction_eq (h : Assigned tx.2 0 tx.1.output
    ((tx.1.input.map TxIn.previousOutput).flatMap l.1.ranges) l.1.rows outs leftover rows) :
    ledgerTransaction l tx =
      ({ l.1 with ranges := recordOutputs l.1.ranges tx.2 outs, rows }, l.2 ++ leftover) := by
  rw [ledgerTransaction]
  dsimp only
  rw [h.run]

theorem ledgerCoinbase_eq (h : Assigned tx.2 0 tx.1.output l.2 l.1.rows outs leftover rows) :
    ledgerCoinbase l tx = {
      ranges := recordOutputs l.1.ranges tx.2 outs
      lost := l.1.lost ++ leftover
      rows := (putLostRanges rows (total l.1.lost) leftover).1 } := by
  rw [ledgerCoinbase, h.run]

/-- A valid transaction gets the sats of its outputs. -/
theorem Pending.assign (h : Pending s l) {value : Nat} {utxos : UtxoSet}
    (hspend : spend s.1.utxos (tx.1.input.map TxIn.previousOutput) = some (value, utxos))
    (hvalue : outputsValue tx.1.output ≤ value) :
    ∃ outs leftover rows, Assigned tx.2 0 tx.1.output
      ((tx.1.input.map TxIn.previousOutput).flatMap l.1.ranges) l.1.rows outs leftover rows := by
  obtain ⟨hconserved, htotal⟩ := h.conserved.spend hspend
  refine assignOutputs_spec tx.2 l.1.rows (by omega) fun range hrange => ?_
  exact hconserved.pool_inBlock range (List.mem_append_left _ hrange)

theorem Pending.transaction (h : Pending s l) (happly : applyTransaction s tx = some s') :
    Pending s' (ledgerTransaction l tx) := by
  obtain ⟨value, utxos, hspend, hnew, hlen, hvalue, rfl⟩ := applyTransaction_eq_some.mp happly
  obtain ⟨outs, leftover, rows, hassigned⟩ := h.assign hspend hvalue
  obtain ⟨hconserved, htotal⟩ := h.conserved.spend hspend
  have hleft := hassigned.total_leftover
  rw [ledgerTransaction_eq hassigned]
  refine ⟨(hconserved.create hnew hlen hassigned).pool_perm List.perm_append_comm, ?_⟩
  dsimp only
  rw [total_append, h.pool_total]
  omega

/-- The coinbase gets the sats of its outputs. -/
theorem Pending.assign_coinbase (h : Pending s l)
    (hvalue : outputsValue tx.1.output ≤ Height.subsidy s.1.height + s.2) :
    ∃ outs leftover rows, Assigned tx.2 0 tx.1.output l.2 l.1.rows outs leftover rows :=
  assignOutputs_spec tx.2 l.1.rows (by rw [h.pool_total]; exact hvalue) h.conserved.pool_inBlock

theorem Pending.coinbase (h : Pending s l) {chain : ChainState}
    (happly : applyCoinbase s tx = some chain) :
    Conserved (s.1.height + 1) chain (ledgerCoinbase l tx) [] := by
  obtain ⟨hnew, hlen, hvalue, rfl⟩ := applyCoinbase_eq_some.mp happly
  obtain ⟨outs, leftover, rows, hassigned⟩ := h.assign_coinbase hvalue
  have hleft := hassigned.total_leftover
  rw [h.pool_total] at hleft
  have hpool : Conserved (s.1.height + 1) s.1 l.1 (l.2 ++ []) := by
    rw [List.append_nil]
    exact h.conserved
  have hcreated := hpool.create hnew hlen hassigned
  rw [List.append_nil] at hcreated
  rw [ledgerCoinbase_eq hassigned,
    show Height.subsidy s.1.height + s.2 - outputsValue tx.1.output = total leftover by omega]
  exact hcreated.lose

theorem pending_foldl {txs : List (Transaction × Bytes32)} (h : Pending s l)
    (happly : txs.foldlM applyTransaction s = some s') :
    Pending s' (txs.foldl ledgerTransaction l) := by
  induction txs generalizing s l with
  | nil =>
    obtain rfl : s = s' := by simpa using happly
    exact h
  | cons tx txs ih =>
    rw [List.foldlM_cons, Option.bind_eq_bind, Option.bind_eq_some_iff] at happly
    obtain ⟨middle, hfirst, hrest⟩ := happly
    exact ih (h.transaction hfirst) hrest

/-- A valid block keeps the sats and mines its subsidy. -/
theorem Conserved.block {chain chain' : ChainState} {ledger : Ledger}
    (h : Conserved chain.height chain ledger []) {block : BlockData}
    (happly : applyBlock chain block = some chain') :
    Conserved chain'.height chain' (ledgerBlock chain.height ledger block) [] := by
  obtain ⟨coinbase, rest, middle, last, hdata, hrest, hcoinbase, rfl⟩ :=
    applyBlock_eq_some.mp happly
  have hheight : middle.1.height = chain.height := height_foldlM hrest
  have hlast : last.height = chain.height := by
    rw [height_applyCoinbase hcoinbase, hheight]
  have hpending := pending_foldl (l := (ledger, subsidyRanges chain.height))
    ⟨h.mint, by simp⟩ hrest
  have hconserved := hpending.coinbase hcoinbase
  rw [hheight] at hconserved
  rw [ledgerBlock, hdata]
  dsimp only
  rw [hlast]
  exact { hconserved with }

end Blocks

end Lord.Index
