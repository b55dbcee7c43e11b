import Lord.Index.IndexRuns

/-! The index keeps every sat: after each block the stored ranges are the sats mined so far, each in
one place, and the sat table tells where the first sats of the blocks lie. -/

namespace Lord.Index

open Bitcoin Ordinals

/-- The sat ranges of an entry. -/
def entryRanges (config : IndexConfig) (entry : Bytes) : List SatRange :=
  match (UtxoEntry.parse config entry).bind ParsedUtxoEntry.satRanges with
  | some bytes => SatRange.loadAll bytes
  | none => []

/-- The stored ranges of an outpoint. -/
def storedRanges (config : IndexConfig) (s : IndexState) (outpoint : OutPoint) : List SatRange :=
  ((overlay config s outpoint).map (entryRanges config)).getD []

structure SatsConserved (config : IndexConfig) (chain : ChainState) (s : IndexState) : Prop where
  entries : ∀ outpoint, outpoint ≠ OutPoint.null →
    ((overlay config s outpoint).isSome = true ↔ outpoint ∈ chain.utxos)
  nodup : ∀ outpoint, (sats (storedRanges config s outpoint)).Nodup
  disjoint : ∀ a b, a ≠ b →
    (sats (storedRanges config s a)).Disjoint (sats (storedRanges config s b))
  all : ∀ sat, (∃ outpoint, sat ∈ sats (storedRanges config s outpoint)) ↔
    sat < Height.startingSat s.tables.headers.length
  values : ∀ outpoint output, chain.utxos.lookup outpoint = some output →
    total (storedRanges config s outpoint) = output.value.toNat
  lost_sats : s.tables.lostSats = total (storedRanges config s OutPoint.null)
  first_sats : ∀ height < s.tables.headers.length, 0 < Height.subsidy height →
    s.tables.satToSatpoint (Height.startingSat height) ≠ none
  rows : ∀ sat point, s.tables.satToSatpoint sat = some point ↔
    (∃ height < s.tables.headers.length,
      0 < Height.subsidy height ∧ Height.startingSat height = sat) ∧
    (sats (storedRanges config s point.outpoint))[point.offset]? = some sat

/-! ### The ranges of the chain -/

/-- The ranges of an outpoint of this chain. -/
def rangesAt (chain : ChainState) (ledger : Ledger) (outpoint : OutPoint) : List SatRange :=
  if outpoint = OutPoint.null then ledger.lost
  else if outpoint ∈ chain.utxos then ledger.ranges outpoint
  else []

theorem entryRanges_pushed {config : IndexConfig} (hsats : config.indexSats = true)
    {ranges : List SatRange} (hranges : ∀ range ∈ ranges, InBlock range) {value : Nat}
    (hvalue : value < 2 ^ 64) (script : Bytes) :
    entryRanges config (UtxoEntry.pushed config ranges value script) = ranges := by
  rw [entryRanges, UtxoEntry.parse_pushed config ranges hvalue, if_pos hsats]
  exact SatRange.loadAll_storeAll fun range hrange => (hranges range hrange).fits

/-- The first sats of the blocks so far. -/
theorem firstSat_lt_iff {blocks sat : Nat} :
    FirstSat sat ∧ sat < Height.startingSat blocks ↔
      ∃ height < blocks, 0 < Height.subsidy height ∧ Height.startingSat height = sat := by
  constructor
  · rintro ⟨⟨height, hpos, rfl⟩, hlt⟩
    refine ⟨height, ?_, hpos, rfl⟩
    by_contra hge
    have := Height.startingSat_mono (show blocks ≤ height by omega)
    omega
  · rintro ⟨height, hlt, hpos, rfl⟩
    refine ⟨⟨height, hpos, rfl⟩, ?_⟩
    have := Height.startingSat_mono (show height + 1 ≤ blocks from hlt)
    rw [Height.startingSat_succ] at this
    omega

section Conserved

variable {blocks : Nat} {chain : ChainState} {ledger : Ledger}

/-- The sats of the outputs and the lost ones, when no block is under way. -/
theorem Conserved.perm (h : Conserved blocks chain ledger []) :
    (held chain.utxos ledger.ranges ++ sats ledger.lost).Perm
      (List.range (Height.startingSat blocks)) := by
  simpa using h.all_sats

theorem Conserved.nodup_rangesAt (h : Conserved blocks chain ledger []) (outpoint : OutPoint) :
    (sats (rangesAt chain ledger outpoint)).Nodup := by
  have hnodup := h.perm.nodup_iff.mpr List.nodup_range
  unfold rangesAt
  split
  · exact hnodup.of_append_right
  · split
    · rename_i hmem
      exact (List.nodup_flatMap.mp hnodup.of_append_left).1 outpoint (AList.mem_keys.mp hmem)
    · exact List.nodup_nil

theorem Conserved.disjoint_rangesAt (h : Conserved blocks chain ledger []) {a b : OutPoint}
    (hne : a ≠ b) : (sats (rangesAt chain ledger a)).Disjoint (sats (rangesAt chain ledger b)) := by
  have hnodup := h.perm.nodup_iff.mpr List.nodup_range
  have hlost := List.disjoint_of_nodup_append hnodup
  have hpair := (List.nodup_flatMap.mp hnodup.of_append_left).2
  intro sat ha hb
  unfold rangesAt at ha hb
  split at ha <;> split at hb
  · rename_i hanull hbnull
    exact hne (hanull.trans hbnull.symm)
  · split at hb
    · rename_i hmem
      exact hlost (mem_held hmem hb) ha
    · cases hb
  · split at ha
    · rename_i hmem
      exact hlost (mem_held hmem ha) hb
    · cases ha
  · split at ha
    · split at hb
      · rename_i hamem hbmem
        have : Std.Symm (Function.onFun List.Disjoint fun outpoint => sats (ledger.ranges outpoint)) :=
          ⟨fun _ _ hxy => hxy.symm⟩
        exact hpair.forall (AList.mem_keys.mp hamem) (AList.mem_keys.mp hbmem) hne ha hb
      · cases hb
    · cases ha

theorem Conserved.mem_rangesAt_iff (h : Conserved blocks chain ledger []) {sat : Nat} :
    (∃ outpoint, sat ∈ sats (rangesAt chain ledger outpoint)) ↔
      sat < Height.startingSat blocks := by
  rw [← List.mem_range, ← h.perm.mem_iff, List.mem_append]
  constructor
  · rintro ⟨outpoint, hsat⟩
    unfold rangesAt at hsat
    split at hsat
    · exact .inr hsat
    · split at hsat
      · rename_i hmem
        exact .inl (mem_held hmem hsat)
      · cases hsat
  · rintro (hheld | hlost)
    · obtain ⟨outpoint, hmem, hsat⟩ := List.mem_flatMap.mp hheld
      refine ⟨outpoint, ?_⟩
      have hin := AList.mem_keys.mpr hmem
      have hnull : outpoint ≠ OutPoint.null := by
        rintro rfl
        exact h.not_null hin
      rwa [rangesAt, if_neg hnull, if_pos hin]
    · exact ⟨OutPoint.null, by rwa [rangesAt, if_pos rfl]⟩

/-- A first sat has its row at the place where it lies. -/
theorem Conserved.rows_of_rangesAt (h : Conserved blocks chain ledger []) {outpoint : OutPoint}
    {i sat : Nat} (hsat : (sats (rangesAt chain ledger outpoint))[i]? = some sat)
    (hfirst : FirstSat sat) : ledger.rows sat = some ⟨outpoint, i⟩ := by
  unfold rangesAt at hsat
  split at hsat
  · rename_i hnull
    rw [hnull]
    exact h.lost_rows i sat hsat hfirst
  · split at hsat
    · rename_i hmem
      exact h.held_rows outpoint hmem i sat hsat hfirst
    · simp at hsat

/-- The rows are those of the first sats, at the places where they lie. -/
theorem Conserved.rows_iff (h : Conserved blocks chain ledger []) (sat : Nat) (point : SatPoint) :
    ledger.rows sat = some point ↔
      (FirstSat sat ∧ sat < Height.startingSat blocks) ∧
        (sats (rangesAt chain ledger point.outpoint))[point.offset]? = some sat := by
  constructor
  · intro hrow
    obtain ⟨hfirst, hlt⟩ := h.rows_only sat point hrow
    refine ⟨⟨hfirst, hlt⟩, ?_⟩
    obtain ⟨outpoint, hsat⟩ := h.mem_rangesAt_iff.mpr hlt
    obtain ⟨i, hi⟩ := List.mem_iff_getElem?.mp hsat
    rw [h.rows_of_rangesAt hi hfirst] at hrow
    obtain rfl := Option.some.inj hrow
    exact hi
  · rintro ⟨⟨hfirst, -⟩, hsat⟩
    exact h.rows_of_rangesAt hsat hfirst

end Conserved

/-! ### The index -/

section Stored

variable {config : IndexConfig} {committed : ChainState × Ledger} {chain : ChainState}
  {ledger : Ledger} {s : IndexState}

theorem View.storedRanges (h : View config committed chain ledger s)
    (hconserved : Conserved chain.height chain ledger []) (hsats : config.indexSats = true)
    (outpoint : OutPoint) :
    Index.storedRanges config s outpoint = rangesAt chain ledger outpoint := by
  rw [Index.storedRanges, h.overlay, entryAt, rangesAt]
  split
  · unfold nullEntry
    split
    · exact entryRanges_pushed hsats hconserved.lost_inBlock (by decide) []
    · rename_i hnone
      by_contra hlost
      exact hnone ⟨hsats, fun hempty => hlost (hempty ▸ rfl)⟩
  · split
    · rename_i hmem
      obtain ⟨output, hlookup⟩ := Option.isSome_iff_exists.mp (AList.lookup_isSome.mpr hmem)
      rw [hlookup]
      exact entryRanges_pushed hsats (hconserved.held_inBlock outpoint hmem)
        output.value.toNat_lt _
    · rename_i hout
      rw [AList.lookup_eq_none.mpr hout]
      rfl

theorem View.satsConserved (h : View config committed chain ledger s)
    (hconserved : Conserved chain.height chain ledger []) (hsats : config.indexSats = true) :
    SatsConserved config chain s := by
  have hstored := h.storedRanges hconserved hsats
  have hrows : s.tables.satToSatpoint = ledger.rows := by rw [h.rows, if_pos hsats]
  constructor
  · intro outpoint hnull
    rw [h.overlay, entryAt, if_neg hnull, Option.isSome_map, AList.lookup_isSome]
  · intro outpoint
    rw [hstored]
    exact hconserved.nodup_rangesAt outpoint
  · intro a b hne
    rw [hstored, hstored]
    exact hconserved.disjoint_rangesAt hne
  · intro sat
    rw [h.headers, ← hconserved.mem_rangesAt_iff]
    simp only [hstored]
  · intro outpoint output hlookup
    have hmem : outpoint ∈ chain.utxos := AList.lookup_isSome.mp (by rw [hlookup]; rfl)
    have hnull : outpoint ≠ OutPoint.null := by
      rintro rfl
      exact hconserved.not_null hmem
    rw [hstored, rangesAt, if_neg hnull, if_pos hmem]
    exact hconserved.values outpoint output hlookup
  · rw [hstored, rangesAt, if_pos rfl, h.lost_sats, if_pos hsats]
  · intro height hlt hpos
    rw [h.headers] at hlt
    have hfirst := firstSat_lt_iff.mpr ⟨height, hlt, hpos, rfl⟩
    obtain ⟨outpoint, hsat⟩ := hconserved.mem_rangesAt_iff.mpr hfirst.2
    obtain ⟨i, hi⟩ := List.mem_iff_getElem?.mp hsat
    rw [hrows, hconserved.rows_of_rangesAt hi hfirst.1]
    simp
  · intro sat point
    rw [hrows, hstored, h.headers, hconserved.rows_iff, firstSat_lt_iff]

end Stored

/-- In every run over valid blocks, with commits in any places, nothing panics, and every state
reached keeps the sats. -/
theorem sats_conserved (config : IndexConfig) (hsats : config.indexSats = true)
    (events : List Event) (chain : ChainState)
    (hvalid : applyBlocks (eventBlocks events) = some chain) :
    (∀ message, runEvents config .start events ≠ .error (.panic message)) ∧
      ∀ s, runEvents config .start events = .ok s → SatsConserved config chain s := by
  have hfull : (config.indexAddresses || config.indexSats) = true := by simp [hsats]
  have hsome : (applyBlocks (eventBlocks events)).isSome = true := by rw [hvalid]; rfl
  rcases indexed_run hfull hsome with ⟨s, hrun, h⟩ | ⟨-, err, hrun⟩
  · rw [hrun]
    refine ⟨by simp, fun s' heq => ?_⟩
    obtain rfl := Except.ok.inj heq
    have hchain : chainAfter events = chain := Option.some.inj (h.valid.symm.trans hvalid)
    rw [← hchain]
    exact h.view.satsConserved h.conserved hsats
  · rw [hrun]
    exact ⟨by simp, by simp⟩

/-- Thirty coins are lost, and the others lie in the output. -/
theorem sats_conserved_block :
    ∃ chain s, runEvents ⟨true, false⟩ .start exampleEvents = .ok s ∧
      SatsConserved ⟨true, false⟩ chain s := by
  obtain ⟨chain, hvalid⟩ := Option.isSome_iff_exists.mp
    (show (applyBlocks (eventBlocks exampleEvents)).isSome = true by decide +kernel)
  obtain ⟨s, hrun⟩ := exists_of_isOk
    (show (runEvents ⟨true, false⟩ .start exampleEvents).isOk = true by decide +kernel)
  exact ⟨chain, s, hrun, (sats_conserved ⟨true, false⟩ rfl exampleEvents chain hvalid).2 s hrun⟩

end Lord.Index
