import Lord.Index.SatConservation

/-! Where sats lie: a scan of the stored ranges finds one sat, and another one the pieces of a range of
sats.  Over ranges that hold every mined sat once the two agree. -/

namespace Lord.Index

open Bitcoin Ordinals

/-! ### The scan for one sat -/

/-- The offset of a sat among the ranges of an output. -/
def findInRanges (sat offset : Nat) : List SatRange → Option Nat
  | [] => none
  | (start, stop) :: rest =>
    if start ≤ sat ∧ sat < stop then some (offset + sat - start)
    else findInRanges sat (offset + (stop - start)) rest

/-- The ranges of an entry. -/
def loadRanges (config : IndexConfig) (entry : Bytes) : Outcome (List SatRange) :=
  match (UtxoEntry.parse config entry).bind ParsedUtxoEntry.satRanges with
  | some bytes => .ok (SatRange.loadAll bytes)
  | none => .error (.panic "sat ranges are missing")

def findInEntries (config : IndexConfig) (sat : Nat) :
    List (OutPoint × Bytes) → Outcome (Option SatPoint)
  | [] => .ok none
  | (outpoint, entry) :: rest => do
    let ranges ← loadRanges config entry
    match findInRanges sat 0 ranges with
    | some offset => .ok (some ⟨outpoint, offset⟩)
    | none => findInEntries config sat rest

/-- `Sat::height`, which panics behind the last sat. -/
def heightOf (sat : Nat) : Outcome Nat :=
  okOr (Sat.height sat) (.panic "attempt to divide by zero")

/-- `Index::find`, over the rows of `OUTPOINT_TO_UTXO_ENTRY` in the order of the table. -/
def find (config : IndexConfig) (tables : Tables) (rows : List (OutPoint × Bytes)) (sat : Nat) :
    Outcome (Option SatPoint) := do
  let height ← heightOf sat
  if tables.headers.length ≤ height then .ok none else findInEntries config sat rows

/-! ### The scan for a range of sats -/

structure FindRangeOutput where
  start : Nat
  size : Nat
  satpoint : SatPoint
  deriving Repr, DecidableEq

/-- The part of a stored range that is searched. -/
def overlap (rangeStart rangeEnd : Nat) (outpoint : OutPoint) (offset : Nat) (range : SatRange) :
    FindRangeOutput :=
  let overlapStart := max range.1 rangeStart
  let overlapEnd := min range.2 rangeEnd
  ⟨overlapStart, overlapEnd - overlapStart, ⟨outpoint, offset + overlapStart - range.1⟩⟩

/-- The loop over the ranges of an output, which ends early when no sats remain. -/
def findRangeInRanges (rangeStart rangeEnd : Nat) (outpoint : OutPoint) (offset remainingSats : Nat) :
    List SatRange → Outcome (List FindRangeOutput × Nat)
  | [] => .ok ([], remainingSats)
  | range :: rest =>
    if rangeStart < range.2 ∧ range.1 < rangeEnd then
      let piece := overlap rangeStart rangeEnd outpoint offset range
      if remainingSats < piece.size then
        .error (.panic "attempt to subtract with overflow")
      else if remainingSats - piece.size = 0 then
        .ok ([piece], 0)
      else do
        let (pieces, remaining) ← findRangeInRanges rangeStart rangeEnd outpoint
          (offset + (range.2 - range.1)) (remainingSats - piece.size) rest
        .ok (piece :: pieces, remaining)
    else
      findRangeInRanges rangeStart rangeEnd outpoint (offset + (range.2 - range.1)) remainingSats rest

/-- The loop over the outputs, which goes on when no sats remain. -/
def findRangeInEntries (config : IndexConfig) (rangeStart rangeEnd remainingSats : Nat) :
    List (OutPoint × Bytes) → Outcome (List FindRangeOutput)
  | [] => .ok []
  | (outpoint, entry) :: rest => do
    let ranges ← loadRanges config entry
    let (pieces, remaining) ←
      findRangeInRanges rangeStart rangeEnd outpoint 0 remainingSats ranges
    let others ← findRangeInEntries config rangeStart rangeEnd remaining rest
    .ok (pieces ++ others)

/-- `Index::find_range`. -/
def findRange (config : IndexConfig) (tables : Tables) (rows : List (OutPoint × Bytes))
    (rangeStart rangeEnd : Nat) : Outcome (Option (List FindRangeOutput)) :=
  if rangeEnd = 0 then
    .error (.panic "attempt to subtract with overflow")
  else do
    let height ← heightOf (rangeEnd - 1)
    if tables.headers.length < height + 1 then
      .ok none
    else if rangeEnd < rangeStart then
      .error (.err "range end is before range start")
    else
      let pieces ← findRangeInEntries config rangeStart rangeEnd (rangeEnd - rangeStart) rows
      .ok (some pieces)

/-! ### Sats at their offsets -/

/-- The sats of a piece. -/
def FindRangeOutput.sats (piece : FindRangeOutput) : List Nat := List.range' piece.start piece.size

/-- The sats that are searched. -/
def Searched (rangeStart rangeEnd sat : Nat) : Bool := rangeStart ≤ sat && sat < rangeEnd

/-- The scan finds the place of a sat in the ranges. -/
theorem findInRanges_eq_some {sat offset found : Nat} {ranges : List SatRange}
    (hnodup : (sats ranges).Nodup) :
    findInRanges sat offset ranges = some found ↔
      ∃ i, (sats ranges)[i]? = some sat ∧ found = offset + i := by
  induction ranges generalizing offset with
  | nil => simp [findInRanges]
  | cons range rest ih =>
    obtain ⟨start, stop⟩ := range
    rw [sats_cons] at hnodup ⊢
    dsimp only at hnodup ⊢
    have hlength : (List.range' start (stop - start)).length = stop - start := List.length_range'
    have hat : ∀ i, (List.range' start (stop - start))[i]? = some sat ↔
        i < stop - start ∧ start + i = sat := by
      intro i
      rw [List.getElem?_eq_some_iff]
      simp
    rw [findInRanges]
    split
    · rename_i hin
      constructor
      · intro hfound
        refine ⟨sat - start, ?_, ?_⟩
        · rw [List.getElem?_append_left (by rw [hlength]; omega), hat]
          omega
        · rw [Option.some.injEq] at hfound
          omega
      · rintro ⟨i, hi, rfl⟩
        have hleft : (List.range' start (stop - start) ++ sats rest)[sat - start]? = some sat := by
          rw [List.getElem?_append_left (by rw [hlength]; omega), hat]
          omega
        have hsame : i = sat - start := by
          have hlt := (List.getElem?_eq_some_iff.mp hi).1
          have hlt' := (List.getElem?_eq_some_iff.mp hleft).1
          exact (@List.Nodup.getElem_inj_iff _ _ hnodup _ hlt _ hlt').mp (by
            rw [(List.getElem?_eq_some_iff.mp hi).2, (List.getElem?_eq_some_iff.mp hleft).2])
        rw [Option.some.injEq]
        omega
    · rename_i hout
      rw [ih hnodup.of_append_right]
      constructor
      · rintro ⟨i, hi, rfl⟩
        refine ⟨(stop - start) + i, ?_, by omega⟩
        rw [List.getElem?_append_right (by rw [hlength]; omega), hlength, Nat.add_sub_cancel_left]
        exact hi
      · rintro ⟨i, hi, rfl⟩
        rcases Nat.lt_or_ge i (stop - start) with hlt | hge
        · rw [List.getElem?_append_left (by rw [hlength]; exact hlt), hat] at hi
          omega
        · rw [List.getElem?_append_right (by rw [hlength]; exact hge), hlength] at hi
          exact ⟨i - (stop - start), hi, by omega⟩

theorem entryRanges_of_load {config : IndexConfig} {entry : Bytes} {ranges : List SatRange}
    (h : loadRanges config entry = .ok ranges) : entryRanges config entry = ranges := by
  unfold loadRanges at h
  unfold entryRanges
  cases hbytes : (UtxoEntry.parse config entry).bind ParsedUtxoEntry.satRanges with
  | none =>
    rw [hbytes] at h
    cases h
  | some bytes =>
    rw [hbytes] at h
    exact Except.ok.inj h

/-- A row that holds a sat, where no row in front of it does, is the one that is found. -/
theorem findInEntries_eq {config : IndexConfig} {sat i : Nat} {rows : List (OutPoint × Bytes)}
    {row : OutPoint × Bytes} (hload : ∀ row ∈ rows, ∃ ranges, loadRanges config row.2 = .ok ranges)
    (hnodup : (rows.flatMap fun row => sats (entryRanges config row.2)).Nodup) (hrow : row ∈ rows)
    (hsat : (sats (entryRanges config row.2))[i]? = some sat) :
    findInEntries config sat rows = .ok (some ⟨row.1, i⟩) := by
  induction rows with
  | nil => cases hrow
  | cons first rest ih =>
    obtain ⟨outpoint, entry⟩ := first
    obtain ⟨ranges, hranges⟩ := hload _ List.mem_cons_self
    have hentry := entryRanges_of_load hranges
    rw [List.flatMap_cons] at hnodup
    obtain ⟨hfirst, hrest, hapart⟩ := List.nodup_append.mp hnodup
    dsimp only at hranges
    rw [hentry] at hfirst hapart
    rw [findInEntries, hranges]
    simp only [bind, Except.bind]
    rcases List.mem_cons.mp hrow with rfl | hrow
    · dsimp only at hsat
      rw [hentry] at hsat
      rw [(findInRanges_eq_some hfirst).mpr ⟨i, hsat, (Nat.zero_add i).symm⟩]
    · have hnone : findInRanges sat 0 ranges = none := by
        cases hfound : findInRanges sat 0 ranges with
        | none => rfl
        | some found =>
          obtain ⟨j, hj, -⟩ := (findInRanges_eq_some hfirst).mp hfound
          have hbehind : sat ∈ rest.flatMap fun row => sats (entryRanges config row.2) :=
            List.mem_flatMap.mpr ⟨row, hrow, List.mem_of_getElem? hsat⟩
          exact absurd rfl (hapart sat (List.mem_of_getElem? hj) sat hbehind)
      rw [hnone]
      exact ih (fun row hmem => hload row (List.mem_cons_of_mem _ hmem)) hrest hrow

/-! ### The pieces of the searched sats -/

/-- The searched parts of the ranges of an output. -/
def overlaps (rangeStart rangeEnd : Nat) (outpoint : OutPoint) (offset : Nat) :
    List SatRange → List FindRangeOutput
  | [] => []
  | range :: rest =>
    if rangeStart < range.2 ∧ range.1 < rangeEnd then
      overlap rangeStart rangeEnd outpoint offset range ::
        overlaps rangeStart rangeEnd outpoint (offset + (range.2 - range.1)) rest
    else overlaps rangeStart rangeEnd outpoint (offset + (range.2 - range.1)) rest

/-- The sats of all pieces. -/
def pieceSats (pieces : List FindRangeOutput) : List Nat := pieces.flatMap FindRangeOutput.sats

/-- The number of sats of all pieces. -/
def pieceTotal (pieces : List FindRangeOutput) : Nat := (pieces.map FindRangeOutput.size).sum

theorem length_pieceSats (pieces : List FindRangeOutput) :
    (pieceSats pieces).length = pieceTotal pieces := by
  simp [pieceSats, pieceTotal, List.length_flatMap, FindRangeOutput.sats]

/-- The part of a range that is searched has its searched sats. -/
theorem filter_range' {rangeStart rangeEnd : Nat} (h : rangeStart < rangeEnd) (start length : Nat) :
    (List.range' start length).filter (Searched rangeStart rangeEnd) =
      List.range' (max start rangeStart) (min (start + length) rangeEnd - max start rangeStart) := by
  induction length generalizing start with
  | zero =>
    have hnone : min start rangeEnd - max start rangeStart = 0 := by omega
    simp [hnone]
  | succ length ih =>
    rw [List.range'_succ, List.filter_cons, ih]
    have hsum : start + 1 + length = start + (length + 1) := by omega
    rw [hsum]
    split
    · rename_i hin
      have hbounds : rangeStart ≤ start ∧ start < rangeEnd := by simpa [Searched] using hin
      have hcount : min (start + (length + 1)) rangeEnd - max start rangeStart =
          (min (start + (length + 1)) rangeEnd - max (start + 1) rangeStart) + 1 := by omega
      have hfrom : max start rangeStart = start := by omega
      have hnext : max (start + 1) rangeStart = start + 1 := by omega
      rw [hcount, hfrom, hnext, List.range'_succ]
    · rename_i hout
      have hbounds : ¬(rangeStart ≤ start ∧ start < rangeEnd) := by simpa [Searched] using hout
      rcases Nat.lt_or_ge start rangeStart with hlt | hge
      · have hsame : max (start + 1) rangeStart = max start rangeStart := by omega
        rw [hsame]
      · have hnone : min (start + (length + 1)) rangeEnd - max start rangeStart = 0 := by omega
        have hnone' : min (start + (length + 1)) rangeEnd - max (start + 1) rangeStart = 0 := by omega
        rw [hnone, hnone']
        rfl

/-- The pieces have the searched sats, in their order. -/
theorem pieceSats_overlaps {rangeStart rangeEnd : Nat} (h : rangeStart < rangeEnd)
    (outpoint : OutPoint) (offset : Nat) {ranges : List SatRange}
    (hranges : ∀ range ∈ ranges, range.1 ≤ range.2) :
    pieceSats (overlaps rangeStart rangeEnd outpoint offset ranges) =
      (sats ranges).filter (Searched rangeStart rangeEnd) := by
  induction ranges generalizing offset with
  | nil => rfl
  | cons range rest ih =>
    have hle := hranges range List.mem_cons_self
    have hrest := ih (offset + (range.2 - range.1))
      fun r hr => hranges r (List.mem_cons_of_mem _ hr)
    have hstop : range.1 + (range.2 - range.1) = range.2 := by omega
    rw [sats_cons, List.filter_append, filter_range' h, hstop, ← hrest, overlaps]
    split
    · rfl
    · rename_i hout
      have hnone : min range.2 rangeEnd - max range.1 rangeStart = 0 := by omega
      rw [hnone]
      rfl

/-- A piece lies at its offset in the output. -/
theorem overlaps_offset {rangeStart rangeEnd offset : Nat} {outpoint : OutPoint}
    {ranges : List SatRange} {piece : FindRangeOutput}
    (hpiece : piece ∈ overlaps rangeStart rangeEnd outpoint offset ranges) :
    piece.satpoint.outpoint = outpoint ∧ ∀ k < piece.size, ∃ i,
      piece.satpoint.offset + k = offset + i ∧ (sats ranges)[i]? = some (piece.start + k) := by
  induction ranges generalizing offset with
  | nil => cases hpiece
  | cons range rest ih =>
    have hlength : (List.range' range.1 (range.2 - range.1)).length = range.2 - range.1 :=
      List.length_range'
    have hlater : piece ∈ overlaps rangeStart rangeEnd outpoint (offset + (range.2 - range.1)) rest →
        piece.satpoint.outpoint = outpoint ∧ ∀ k < piece.size, ∃ i,
          piece.satpoint.offset + k = offset + i ∧
            (sats (range :: rest))[i]? = some (piece.start + k) := by
      intro hmem
      obtain ⟨houtpoint, hoffset⟩ := ih hmem
      refine ⟨houtpoint, fun k hk => ?_⟩
      obtain ⟨i, hi, hsat⟩ := hoffset k hk
      refine ⟨(range.2 - range.1) + i, by omega, ?_⟩
      rw [sats_cons, List.getElem?_append_right (by rw [hlength]; omega), hlength,
        Nat.add_sub_cancel_left]
      exact hsat
    rw [overlaps] at hpiece
    split at hpiece
    · rcases List.mem_cons.mp hpiece with rfl | hpiece
      · refine ⟨rfl, fun k hk => ⟨max range.1 rangeStart - range.1 + k, ?_, ?_⟩⟩
        · dsimp only [overlap]
          omega
        · dsimp only [overlap] at hk ⊢
          rw [sats_cons, List.getElem?_append_left (by rw [hlength]; omega),
            List.getElem?_eq_some_iff]
          refine ⟨by rw [hlength]; omega, ?_⟩
          rw [List.getElem_range']
          omega
      · exact hlater hpiece
    · exact hlater hpiece

/-! ### The remaining sats -/

/-- The loop over an output takes its pieces, but for empty ones behind an early end, and does not
underflow while their sats remain. -/
theorem findRangeInRanges_spec {rangeStart rangeEnd remaining offset : Nat} (outpoint : OutPoint)
    {ranges : List SatRange}
    (h : pieceTotal (overlaps rangeStart rangeEnd outpoint offset ranges) ≤ remaining) :
    ∃ taken dropped, overlaps rangeStart rangeEnd outpoint offset ranges = taken ++ dropped ∧
      pieceTotal dropped = 0 ∧
      findRangeInRanges rangeStart rangeEnd outpoint offset remaining ranges =
        .ok (taken, remaining - pieceTotal taken) := by
  induction ranges generalizing offset remaining with
  | nil => exact ⟨[], [], rfl, rfl, rfl⟩
  | cons range rest ih =>
    rw [overlaps] at h ⊢
    rw [findRangeInRanges]
    split
    · rename_i hin
      rw [if_pos hin] at h
      generalize hpiece : overlap rangeStart rangeEnd outpoint offset range = piece at h ⊢
      have hsum : pieceTotal (piece :: overlaps rangeStart rangeEnd outpoint
          (offset + (range.2 - range.1)) rest) = piece.size + pieceTotal (overlaps rangeStart rangeEnd
            outpoint (offset + (range.2 - range.1)) rest) := rfl
      rw [hsum] at h
      dsimp only
      rw [if_neg (by omega)]
      split
      · rename_i hzero
        refine ⟨[piece], _, rfl, by omega, ?_⟩
        have hone : pieceTotal [piece] = piece.size := rfl
        rw [hone, hzero]
      · have hless : pieceTotal (overlaps rangeStart rangeEnd outpoint
            (offset + (range.2 - range.1)) rest) ≤ remaining - piece.size := by omega
        obtain ⟨taken, dropped, hsplit, hdropped, hrun⟩ := ih hless
        refine ⟨piece :: taken, dropped, by rw [hsplit]; rfl, hdropped, ?_⟩
        have hmore : pieceTotal (piece :: taken) = piece.size + pieceTotal taken := rfl
        rw [hrun, hmore, Nat.sub_add_eq]
        rfl
    · rename_i hout
      rw [if_neg hout] at h
      exact ih h

/-- The searched parts of all entries. -/
def entryOverlaps (config : IndexConfig) (rangeStart rangeEnd : Nat)
    (rows : List (OutPoint × Bytes)) : List FindRangeOutput :=
  rows.flatMap fun row => overlaps rangeStart rangeEnd row.1 0 (entryRanges config row.2)

theorem pieceTotal_append (front back : List FindRangeOutput) :
    pieceTotal (front ++ back) = pieceTotal front + pieceTotal back := by
  simp [pieceTotal]

/-- The loop over the outputs takes the pieces of every output, but for empty ones. -/
theorem findRangeInEntries_spec {config : IndexConfig} {rangeStart rangeEnd remaining : Nat}
    {rows : List (OutPoint × Bytes)}
    (hload : ∀ row ∈ rows, ∃ ranges, loadRanges config row.2 = .ok ranges)
    (h : pieceTotal (entryOverlaps config rangeStart rangeEnd rows) ≤ remaining) :
    ∃ pieces, findRangeInEntries config rangeStart rangeEnd remaining rows = .ok pieces ∧
      pieces.Sublist (entryOverlaps config rangeStart rangeEnd rows) ∧
      pieceSats pieces = pieceSats (entryOverlaps config rangeStart rangeEnd rows) := by
  induction rows generalizing remaining with
  | nil => exact ⟨[], rfl, .slnil, rfl⟩
  | cons row rest ih =>
    obtain ⟨outpoint, entry⟩ := row
    obtain ⟨ranges, hranges⟩ := hload _ List.mem_cons_self
    have hentry := entryRanges_of_load hranges
    have hcons : entryOverlaps config rangeStart rangeEnd ((outpoint, entry) :: rest) =
        overlaps rangeStart rangeEnd outpoint 0 ranges ++
          entryOverlaps config rangeStart rangeEnd rest := by
      rw [entryOverlaps, List.flatMap_cons]
      dsimp only at hentry ⊢
      rw [hentry]
      rfl
    rw [hcons] at h ⊢
    rw [pieceTotal_append] at h
    have hfits : pieceTotal (overlaps rangeStart rangeEnd outpoint 0 ranges) ≤ remaining := by omega
    obtain ⟨taken, dropped, hsplit, hdropped, hrun⟩ := findRangeInRanges_spec outpoint hfits
    rw [hsplit, pieceTotal_append] at h
    have hless : pieceTotal (entryOverlaps config rangeStart rangeEnd rest) ≤
        remaining - pieceTotal taken := by omega
    obtain ⟨others, hothers, hsub, hsats⟩ :=
      ih (fun row hmem => hload row (List.mem_cons_of_mem _ hmem)) hless
    refine ⟨taken ++ others, ?_, ?_, ?_⟩
    · rw [findRangeInEntries]
      dsimp only at hranges
      simp only [bind, Except.bind, hranges, hrun, hothers]
    · rw [hsplit, List.append_assoc]
      exact (List.Sublist.refl taken).append (hsub.trans (List.sublist_append_right _ _))
    · have hempty : pieceSats dropped = [] := by
        rw [← List.length_eq_zero_iff, length_pieceSats, hdropped]
      rw [hsplit]
      unfold pieceSats at *
      rw [List.flatMap_append, List.flatMap_append, List.flatMap_append, hempty, hsats,
        List.append_nil]

/-! ### Ranges that hold the mined sats -/

/-- The rows of `OUTPOINT_TO_UTXO_ENTRY` hold every sat of the blocks so far, each in one place. -/
structure HoldsMined (config : IndexConfig) (tables : Tables) (rows : List (OutPoint × Bytes)) :
    Prop where
  keys : (rows.map Prod.fst).Nodup
  table : ∀ outpoint entry,
    (outpoint, entry) ∈ rows ↔ tables.outpointToUtxoEntry outpoint = some entry
  load : ∀ row ∈ rows, ∃ ranges, loadRanges config row.2 = .ok ranges
  partition : (rows.flatMap fun row => sats (entryRanges config row.2)).Perm
    (List.range (Height.startingSat tables.headers.length))

theorem le_of_mem_entryRanges {config : IndexConfig} {entry : Bytes} :
    ∀ range ∈ entryRanges config entry, range.1 ≤ range.2 := by
  intro range hrange
  unfold entryRanges at hrange
  split at hrange
  · obtain ⟨bytes, -, rfl⟩ := List.mem_map.mp hrange
    exact Nat.le_add_right _ _
  · cases hrange

section

variable {config : IndexConfig} {tables : Tables} {rows : List (OutPoint × Bytes)}
  {rangeStart rangeEnd : Nat}

theorem HoldsMined.nodup (h : HoldsMined config tables rows) :
    (rows.flatMap fun row => sats (entryRanges config row.2)).Nodup :=
  h.partition.nodup_iff.mpr List.nodup_range

/-- The pieces of all entries have the searched sats. -/
theorem pieceSats_entryOverlaps (h : rangeStart < rangeEnd) (rows : List (OutPoint × Bytes)) :
    pieceSats (entryOverlaps config rangeStart rangeEnd rows) =
      (rows.flatMap fun row => sats (entryRanges config row.2)).filter
        (Searched rangeStart rangeEnd) := by
  induction rows with
  | nil => rfl
  | cons row rest ih =>
    have hrow := pieceSats_overlaps h row.1 0 (@le_of_mem_entryRanges config row.2)
    unfold pieceSats entryOverlaps at *
    rw [List.flatMap_cons, List.flatMap_append, hrow, ih, List.flatMap_cons, List.filter_append]

/-- Each of the searched sats is in one piece. -/
theorem HoldsMined.pieceSats_perm (h : HoldsMined config tables rows) (hrange : rangeStart < rangeEnd)
    (hmined : rangeEnd ≤ Height.startingSat tables.headers.length) :
    (pieceSats (entryOverlaps config rangeStart rangeEnd rows)).Perm
      (List.range' rangeStart (rangeEnd - rangeStart)) := by
  have hperm := h.partition.filter (Searched rangeStart rangeEnd)
  rw [← pieceSats_entryOverlaps hrange, List.range_eq_range', filter_range' hrange] at hperm
  have hfrom : max 0 rangeStart = rangeStart := by omega
  have hto : min (0 + Height.startingSat tables.headers.length) rangeEnd = rangeEnd := by omega
  rwa [hfrom, hto] at hperm

/-- A mined sat is found where its row has it. -/
theorem HoldsMined.find_eq (h : HoldsMined config tables rows) {sat i : Nat}
    {row : OutPoint × Bytes} (hrow : row ∈ rows)
    (hsat : (sats (entryRanges config row.2))[i]? = some sat) :
    find config tables rows sat = .ok (some ⟨row.1, i⟩) := by
  have hmined : sat < Height.startingSat tables.headers.length :=
    List.mem_range.mp (h.partition.mem_iff.mp
      (List.mem_flatMap.mpr ⟨row, hrow, List.mem_of_getElem? hsat⟩))
  have hsupply := Height.startingSat_le_supply tables.headers.length
  obtain ⟨height, hheight, -⟩ := Sat.height_spec (show sat < supply by omega)
  have hlt := (Sat.height_lt_iff (by omega) hheight tables.headers.length).mpr hmined
  rw [find, heightOf, hheight]
  simp only [okOr, bind, Except.bind]
  rw [if_neg (by omega)]
  exact findInEntries_eq h.load h.nodup hrow hsat

/-- The pieces of a range of sats are disjoint parts of it that cover it, with as many sats, and each
sat of a piece is found where the piece says. -/
structure Locates (config : IndexConfig) (tables : Tables) (rows : List (OutPoint × Bytes))
    (rangeStart rangeEnd : Nat) (pieces : List FindRangeOutput) : Prop where
  disjoint : pieces.Pairwise fun a b => a.sats.Disjoint b.sats
  within : ∀ piece ∈ pieces, rangeStart ≤ piece.start ∧ piece.start + piece.size ≤ rangeEnd
  cover : ∀ sat, rangeStart ≤ sat → sat < rangeEnd →
    ∃ piece ∈ pieces, piece.start ≤ sat ∧ sat < piece.start + piece.size
  sizes : (pieces.map FindRangeOutput.size).sum = rangeEnd - rangeStart
  find : ∀ piece ∈ pieces, ∀ sat, piece.start ≤ sat → sat < piece.start + piece.size →
    find config tables rows sat =
      .ok (some ⟨piece.satpoint.outpoint, piece.satpoint.offset + (sat - piece.start)⟩)

theorem mem_entryOverlaps {piece : FindRangeOutput}
    (h : piece ∈ entryOverlaps config rangeStart rangeEnd rows) :
    ∃ row ∈ rows, piece ∈ overlaps rangeStart rangeEnd row.1 0 (entryRanges config row.2) :=
  List.mem_flatMap.mp h

theorem overlaps_within (h : rangeStart < rangeEnd) {outpoint : OutPoint} {offset : Nat}
    {ranges : List SatRange} (hranges : ∀ range ∈ ranges, range.1 ≤ range.2) {piece : FindRangeOutput}
    (hpiece : piece ∈ overlaps rangeStart rangeEnd outpoint offset ranges) :
    rangeStart ≤ piece.start ∧ piece.start + piece.size ≤ rangeEnd := by
  induction ranges generalizing offset with
  | nil => cases hpiece
  | cons range rest ih =>
    have hle := hranges range List.mem_cons_self
    have hrest := fun hmem => @ih (offset + (range.2 - range.1))
      (fun r hr => hranges r (List.mem_cons_of_mem _ hr)) hmem
    rw [overlaps] at hpiece
    split at hpiece
    · rcases List.mem_cons.mp hpiece with rfl | hpiece
      · dsimp only [overlap]
        omega
      · exact hrest hpiece
    · exact hrest hpiece

/-- The scan for a range of mined sats does not underflow, and its pieces locate them. -/
theorem HoldsMined.findRange_ok (h : HoldsMined config tables rows) (hrange : rangeStart < rangeEnd)
    (hmined : rangeEnd ≤ Height.startingSat tables.headers.length) :
    ∃ pieces, findRange config tables rows rangeStart rangeEnd = .ok (some pieces) ∧
      Locates config tables rows rangeStart rangeEnd pieces := by
  have hperm := h.pieceSats_perm hrange hmined
  have htotal : pieceTotal (entryOverlaps config rangeStart rangeEnd rows) =
      rangeEnd - rangeStart := by
    rw [← length_pieceSats, hperm.length_eq, List.length_range']
  obtain ⟨pieces, hrun, hsub, hsats⟩ := findRangeInEntries_spec h.load (Nat.le_of_eq htotal)
  rw [← hsats] at hperm
  have hsupply := Height.startingSat_le_supply tables.headers.length
  obtain ⟨height, hheight, -⟩ := Sat.height_spec (show rangeEnd - 1 < supply by omega)
  have hlt := (Sat.height_lt_iff (by omega) hheight tables.headers.length).mpr (by omega)
  refine ⟨pieces, ?_, ?_⟩
  · rw [findRange, if_neg (by omega), heightOf, hheight]
    simp only [okOr, bind, Except.bind]
    rw [if_neg (by omega), if_neg (by omega), hrun]
  constructor
  · have hnodup := hperm.nodup_iff.mpr List.nodup_range'
    exact (List.nodup_flatMap.mp hnodup).2
  · intro piece hpiece
    obtain ⟨row, -, hmem⟩ := mem_entryOverlaps (hsub.mem hpiece)
    exact overlaps_within hrange le_of_mem_entryRanges hmem
  · intro sat hlo hhi
    have hsat : sat ∈ pieceSats pieces := by
      rw [hperm.mem_iff, List.mem_range'_1]
      omega
    obtain ⟨piece, hpiece, hin⟩ := List.mem_flatMap.mp hsat
    exact ⟨piece, hpiece, List.mem_range'_1.mp hin⟩
  · have hlength := hperm.length_eq
    rwa [length_pieceSats, List.length_range'] at hlength
  · intro piece hpiece sat hlo hhi
    obtain ⟨row, hrow, hmem⟩ := mem_entryOverlaps (hsub.mem hpiece)
    obtain ⟨houtpoint, hoffset⟩ := overlaps_offset hmem
    obtain ⟨i, hi, hsat⟩ := hoffset (sat - piece.start) (by omega)
    have hnumber : piece.start + (sat - piece.start) = sat := by omega
    rw [hnumber] at hsat
    rw [h.find_eq hrow hsat, houtpoint, hi, Nat.zero_add]

/-- Over an index that holds every mined sat once, the scan for a range of mined sats returns pieces
that locate them. -/
theorem findRange_locates (h : HoldsMined config tables rows) (hrange : rangeStart < rangeEnd)
    (hmined : rangeEnd ≤ Height.startingSat tables.headers.length) :
    ∃ pieces, findRange config tables rows rangeStart rangeEnd = .ok (some pieces) ∧
      Locates config tables rows rangeStart rangeEnd pieces :=
  h.findRange_ok hrange hmined

/-! ### Runs of the index -/

/-- A commit leaves an index that holds every mined sat. -/
theorem View.holdsMined {committed : ChainState × Ledger} {chain : ChainState} {ledger : Ledger}
    {s : IndexState} (h : View config committed chain ledger s)
    (hconserved : Conserved chain.height chain ledger []) (hsats : config.indexSats = true)
    (hcache : s.cache = ∅) (hkeys : (rows.map Prod.fst).Nodup)
    (htable : ∀ outpoint entry,
      (outpoint, entry) ∈ rows ↔ s.tables.outpointToUtxoEntry outpoint = some entry) :
    HoldsMined config s.tables rows := by
  have hoverlay : ∀ outpoint, s.tables.outpointToUtxoEntry outpoint =
      entryAt config chain ledger outpoint := by
    intro outpoint
    rw [← h.overlay, Index.overlay, hcache]
    rfl
  have hentry : ∀ row ∈ rows, sats (entryRanges config row.2) =
      sats (rangesAt chain ledger row.1) := by
    intro row hrow
    have hstored := h.storedRanges hconserved hsats row.1
    have hat := (htable row.1 row.2).mp hrow
    rw [Index.storedRanges, h.overlay, ← hoverlay, hat] at hstored
    rw [← hstored]
    rfl
  refine ⟨hkeys, htable, ?_, ?_⟩
  · rintro ⟨outpoint, entry⟩ hrow
    have hat := (htable outpoint entry).mp hrow
    rw [hoverlay, entryAt] at hat
    obtain ⟨ranges, value, script, hvalue, rfl⟩ : ∃ ranges value script, value < 2 ^ 64 ∧
        entry = UtxoEntry.pushed config ranges value script := by
      split at hat
      · unfold nullEntry at hat
        split at hat
        · exact ⟨_, 0, [], by decide, (Option.some.inj hat).symm⟩
        · cases hat
      · obtain ⟨output, -, hout⟩ := Option.map_eq_some_iff.mp hat
        exact ⟨_, _, _, output.value.toNat_lt, hout.symm⟩
    refine ⟨SatRange.loadAll (SatRange.storeAll ranges), ?_⟩
    rw [loadRanges, UtxoEntry.parse_pushed config ranges hvalue, if_pos hsats]
    rfl
  · rw [h.headers, List.perm_ext_iff_of_nodup ?_ List.nodup_range]
    · intro sat
      rw [List.mem_range, ← hconserved.mem_rangesAt_iff, List.mem_flatMap]
      constructor
      · rintro ⟨row, hrow, hsat⟩
        exact ⟨row.1, hentry row hrow ▸ hsat⟩
      · rintro ⟨outpoint, hsat⟩
        cases hat : s.tables.outpointToUtxoEntry outpoint with
        | none =>
          have hstored := h.storedRanges hconserved hsats outpoint
          rw [Index.storedRanges, h.overlay, ← hoverlay, hat] at hstored
          rw [← hstored] at hsat
          cases hsat
        | some entry =>
          have hrow := (htable outpoint entry).mpr hat
          exact ⟨(outpoint, entry), hrow, by rw [hentry _ hrow]; exact hsat⟩
    · rw [List.nodup_flatMap]
      refine ⟨fun row hrow => ?_, ?_⟩
      · rw [hentry row hrow]
        exact hconserved.nodup_rangesAt row.1
      · have hpairs := List.pairwise_map.mp hkeys
        refine hpairs.imp_of_mem fun ha hb hne => ?_
        dsimp only [Function.onFun]
        rw [hentry _ ha, hentry _ hb]
        exact hconserved.disjoint_rangesAt hne

/-- Every update of the index over valid blocks that ends in a commit leaves an index whose scans
locate the mined sats. -/
theorem locates_of_run (hsats : config.indexSats = true) {events : List Event} {order : CacheOrder}
    {s : IndexState} (hvalid : (applyBlocks (eventBlocks (events ++ [.commit order]))).isSome = true)
    (hrun : runEvents config .start (events ++ [.commit order]) = .ok s)
    (hkeys : (rows.map Prod.fst).Nodup)
    (htable : ∀ outpoint entry,
      (outpoint, entry) ∈ rows ↔ s.tables.outpointToUtxoEntry outpoint = some entry)
    (hrange : rangeStart < rangeEnd)
    (hmined : rangeEnd ≤ Height.startingSat s.tables.headers.length) :
    ∃ pieces, findRange config s.tables rows rangeStart rangeEnd = .ok (some pieces) ∧
      Locates config s.tables rows rangeStart rangeEnd pieces := by
  have hcache : s.cache = ∅ := by
    rw [runEvents_concat] at hrun
    obtain ⟨before, -, hcommit⟩ := bind_eq_ok.mp hrun
    obtain ⟨tables, -, heq⟩ := bind_eq_ok.mp hcommit
    rw [← Except.ok.inj heq]
  have hfull : (config.indexAddresses || config.indexSats) = true := by simp [hsats]
  rcases indexed_run hfull hvalid with ⟨reached, hreached, hindexed⟩ | ⟨-, err, herr⟩
  · obtain rfl : reached = s := Except.ok.inj (hreached.symm.trans hrun)
    have hholds := hindexed.view.holdsMined hindexed.conserved hsats hcache hkeys htable
    exact hholds.findRange_ok hrange hmined
  · rw [herr] at hrun
    cases hrun

end

/-! ### A block in two outputs -/

def lateOutput : OutPoint := ⟨Bytes32.replicate 1, 0⟩

def earlyOutput : OutPoint := ⟨Bytes32.replicate 2, 1⟩

/-- The first thousand sats lie in one output, and the others of the block in another one. -/
def twoOutputs : List (OutPoint × Bytes) :=
  [(lateOutput, UtxoEntry.pushed ⟨true, false⟩ [(1000, 5000000000)] 0 []),
    (earlyOutput, UtxoEntry.pushed ⟨true, false⟩ [(0, 1000)] 0 [])]

def twoOutputTables : Tables :=
  { Tables.empty with
    headers := [⟨1, OutPoint.null.txid, OutPoint.null.txid, 0, 0, 0⟩]
    outpointToUtxoEntry := fun outpoint => (twoOutputs.find? fun row => row.1 = outpoint).map Prod.snd }

theorem entryRanges_pushed_one {range : SatRange} (h : range.Fits) :
    loadRanges ⟨true, false⟩ (UtxoEntry.pushed ⟨true, false⟩ [range] 0 []) = .ok [range] := by
  rw [loadRanges, UtxoEntry.parse_pushed _ _ (by decide)]
  exact congrArg Except.ok (SatRange.loadAll_storeAll fun r hr => by rwa [List.mem_singleton.mp hr])

theorem holdsMined_twoOutputs : HoldsMined ⟨true, false⟩ twoOutputTables twoOutputs := by
  have hlate : loadRanges ⟨true, false⟩ (UtxoEntry.pushed ⟨true, false⟩ [(1000, 5000000000)] 0 []) =
      .ok [(1000, 5000000000)] := entryRanges_pushed_one ⟨by decide, by decide, by decide⟩
  have hearly : loadRanges ⟨true, false⟩ (UtxoEntry.pushed ⟨true, false⟩ [(0, 1000)] 0 []) =
      .ok [(0, 1000)] := entryRanges_pushed_one ⟨by decide, by decide, by decide⟩
  refine ⟨by decide, ?_, ?_, ?_⟩
  · intro outpoint entry
    simp only [twoOutputTables, twoOutputs, List.find?_cons, List.find?_nil, List.mem_cons,
      List.not_mem_nil, or_false, Prod.mk.injEq]
    have hne : lateOutput ≠ earlyOutput := by decide
    by_cases hfirst : lateOutput = outpoint
    · subst hfirst
      simp [hne, eq_comm]
    · by_cases hsecond : earlyOutput = outpoint
      · subst hsecond
        simp [hne, hne.symm, eq_comm]
      · simp [hfirst, hsecond, Ne.symm hfirst, Ne.symm hsecond]
  · intro row hrow
    rcases List.mem_cons.mp hrow with rfl | hrow
    · exact ⟨_, hlate⟩
    · rw [List.mem_singleton.mp hrow]
      exact ⟨_, hearly⟩
  · have hsats : (twoOutputs.flatMap fun row => sats (entryRanges ⟨true, false⟩ row.2)) =
        List.range' 1000 4999999000 ++ List.range' 0 1000 := by
      simp only [twoOutputs, List.flatMap_cons, List.flatMap_nil, List.append_nil,
        entryRanges_of_load hlate, entryRanges_of_load hearly, sats_cons, sats_nil]
    have hmined : Height.startingSat twoOutputTables.headers.length = 1000 + 4999999000 := by decide
    rw [hsats, hmined, List.range_eq_range', ← List.range'_append_1]
    exact List.perm_append_comm

theorem findRange_locates_example :
    ∃ pieces, findRange ⟨true, false⟩ twoOutputTables twoOutputs 500 1500 = .ok (some pieces) ∧
      Locates ⟨true, false⟩ twoOutputTables twoOutputs 500 1500 pieces :=
  findRange_locates holdsMined_twoOutputs (by decide) (by decide)

end Lord.Index
