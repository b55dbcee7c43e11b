import Lord.Index.Chain

/-! The sats of ranges in their order, and what assigning ranges to outputs keeps of them. -/

namespace Lord.Index

open Bitcoin Ordinals

/-- The number of sats in ranges. -/
def total (ranges : List SatRange) : Nat := (ranges.map fun range => range.2 - range.1).sum

/-- The sats of ranges, one after the other. -/
def sats (ranges : List SatRange) : List Nat :=
  ranges.flatMap fun range => List.range' range.1 (range.2 - range.1)

@[simp] theorem total_nil : total [] = 0 := rfl

@[simp] theorem total_cons (range : SatRange) (rest : List SatRange) :
    total (range :: rest) = range.2 - range.1 + total rest := rfl

@[simp] theorem sats_nil : sats [] = [] := rfl

@[simp] theorem sats_cons (range : SatRange) (rest : List SatRange) :
    sats (range :: rest) = List.range' range.1 (range.2 - range.1) ++ sats rest := rfl

@[simp] theorem total_append (a b : List SatRange) : total (a ++ b) = total a + total b := by
  simp [total]

@[simp] theorem sats_append (a b : List SatRange) : sats (a ++ b) = sats a ++ sats b := by
  simp [sats]

@[simp] theorem length_sats (ranges : List SatRange) : (sats ranges).length = total ranges := by
  simp [sats, total, List.length_flatMap]

/-! ### Ranges of one block -/

/-- The first sat of the subsidy of a block. -/
def FirstSat (sat : Nat) : Prop :=
  ∃ height, 0 < Height.subsidy height ∧ Height.startingSat height = sat

/-- The range is not empty and lies in the subsidy of one block. -/
def InBlock (range : SatRange) : Prop :=
  ∃ height, Height.startingSat height ≤ range.1 ∧ range.1 < range.2 ∧
    range.2 ≤ Height.startingSat height + Height.subsidy height

theorem InBlock.lt {range : SatRange} (h : InBlock range) : range.1 < range.2 :=
  have ⟨_, _, hlt, _⟩ := h
  hlt

theorem InBlock.fits {range : SatRange} (h : InBlock range) : range.Fits := by
  obtain ⟨height, hlo, hlt, hhi⟩ := h
  have hsupply := Height.startingSat_le_supply (height + 1)
  have hsubsidy := Height.subsidy_le height
  rw [Height.startingSat_succ] at hsupply
  have hbound : supply < 2 ^ 51 := by decide
  have hreward : 50 * coinValue < 2 ^ 37 := by decide
  exact ⟨hlt, by omega, by omega⟩

/-- A part of a range lies in the same block. -/
theorem InBlock.part {range part : SatRange} (h : InBlock range) (hlo : range.1 ≤ part.1)
    (hlt : part.1 < part.2) (hhi : part.2 ≤ range.2) : InBlock part := by
  obtain ⟨height, hstart, -, hstop⟩ := h
  exact ⟨height, by omega, hlt, by omega⟩

/-- Of the sats of a range only the start may be the first one of a block. -/
theorem InBlock.eq_start {range : SatRange} (h : InBlock range) {sat : Nat} (hfirst : FirstSat sat)
    (hlo : range.1 ≤ sat) (hhi : sat < range.2) : sat = range.1 := by
  obtain ⟨height, hstart, -, hstop⟩ := h
  obtain ⟨other, hpos, rfl⟩ := hfirst
  rcases Nat.lt_trichotomy other height with hlt | rfl | hgt
  · have := Height.startingSat_mono (show other + 1 ≤ height from hlt)
    rw [Height.startingSat_succ] at this
    omega
  · omega
  · have := Height.startingSat_mono (show height + 1 ≤ other from hgt)
    rw [Height.startingSat_succ] at this
    omega

/-- A range has a row for its start when its start is the first sat of a block. -/
theorem InBlock.common_iff {range : SatRange} (h : InBlock range) :
    common range.1 = false ↔ FirstSat range.1 := by
  obtain ⟨height, hlo, hlt, hhi⟩ := h
  rw [Height.common_iff hlo (by omega)]
  constructor
  · intro heq
    exact ⟨height, by omega, heq.symm⟩
  · intro hfirst
    have hwhole : InBlock (Height.startingSat height,
        Height.startingSat height + Height.subsidy height) :=
      ⟨height, le_rfl, by dsimp only; omega, le_rfl⟩
    exact hwhole.eq_start hfirst hlo (by dsimp only; omega)

/-! ### Assigning ranges to one output -/

/-- The rows after sats are placed one after the other at an outpoint, from an offset on. -/
structure Placed (rows rows' : SatTable) (outpoint : OutPoint) (offset : Nat) (placed : List Nat) :
    Prop where
  same : ∀ sat, ¬(FirstSat sat ∧ sat ∈ placed) → rows' sat = rows sat
  moved : ∀ i sat, placed[i]? = some sat → FirstSat sat → placed.Nodup →
    rows' sat = some ⟨outpoint, offset + i⟩

theorem Placed.nil (rows : SatTable) (outpoint : OutPoint) (offset : Nat) :
    Placed rows rows outpoint offset [] :=
  ⟨fun _ _ => rfl, by simp⟩

/-- A range, and then the sats behind it. -/
theorem Placed.cons {rows rows' : SatTable} {outpoint : OutPoint} {offset : Nat} {range : SatRange}
    {placed : List Nat} (hrange : InBlock range)
    (h : Placed (putSatPoint rows range.1 ⟨outpoint, offset⟩) rows' outpoint
      (offset + (range.2 - range.1)) placed) :
    Placed rows rows' outpoint offset (List.range' range.1 (range.2 - range.1) ++ placed) := by
  have hlt := hrange.lt
  constructor
  · intro sat hnot
    rw [h.same sat fun hfirst => hnot ⟨hfirst.1, List.mem_append_right _ hfirst.2⟩, putSatPoint]
    split
    · rfl
    · rename_i hrare
      refine Function.update_of_ne ?_ _ _
      rintro rfl
      refine hnot ⟨hrange.common_iff.mp (by simpa using hrare), List.mem_append_left _ ?_⟩
      rw [List.mem_range'_1]
      omega
  · intro i sat hsat hfirst hnodup
    have hlen : (List.range' range.1 (range.2 - range.1)).length = range.2 - range.1 := by simp
    by_cases hi : i < range.2 - range.1
    · -- the sat is the start of the range
      rw [List.getElem?_append_left (by omega), List.getElem?_range' hi] at hsat
      have heq : range.1 + i = sat := by simpa using hsat
      have hstart := hrange.eq_start hfirst (by omega) (by omega)
      obtain rfl : i = 0 := by omega
      have hmem : sat ∈ List.range' range.1 (range.2 - range.1) := by
        rw [List.mem_range'_1]
        omega
      have hnot : sat ∉ placed := fun hplaced =>
        (List.disjoint_of_nodup_append hnodup) hmem hplaced
      rw [h.same sat fun hmoved => hnot hmoved.2, putSatPoint, hstart,
        if_neg (by rw [hrange.common_iff.mpr (hstart ▸ hfirst)]; decide)]
      exact Function.update_self _ _ _
    · rw [List.getElem?_append_right (by omega), hlen] at hsat
      rw [h.moved _ sat hsat hfirst hnodup.of_append_right]
      congr 2
      omega

/-- What is assigned to an output: as many sats as remain of its value, from the front of the
input. -/
theorem assignRanges_spec (outpoint : OutPoint) (value : Nat) {remaining : Nat}
    {input : List SatRange} (rows : SatTable) (hvalue : remaining ≤ value)
    (henough : remaining ≤ total input) (hinput : ∀ range ∈ input, InBlock range) :
    ∃ ranges rest rows', assignRanges outpoint value remaining input rows =
        .ok (ranges, rest, rows') ∧
      total ranges = remaining ∧ sats ranges ++ sats rest = sats input ∧
      (∀ range ∈ ranges, InBlock range) ∧ (∀ range ∈ rest, InBlock range) ∧
      Placed rows rows' outpoint (value - remaining) (sats ranges) := by
  induction input generalizing remaining rows with
  | nil =>
    obtain rfl : remaining = 0 := by simpa using henough
    exact ⟨[], [], rows, by simp [assignRanges], rfl, rfl, by simp, by simp, .nil _ _ _⟩
  | cons range rest ih =>
    by_cases hzero : remaining = 0
    · subst hzero
      exact ⟨[], range :: rest, rows, by simp [assignRanges], rfl, rfl, by simp, hinput,
        .nil _ _ _⟩
    have hrange := hinput range List.mem_cons_self
    have hlt := hrange.lt
    by_cases hcut : remaining < range.2 - range.1
    · -- the range is cut, and the output is done
      have hfront : InBlock (range.1, range.1 + remaining) :=
        hrange.part le_rfl (by dsimp only; omega) (by dsimp only; omega)
      have hback : InBlock (range.1 + remaining, range.2) :=
        hrange.part (by dsimp only; omega) (by dsimp only; omega) le_rfl
      refine ⟨[(range.1, range.1 + remaining)], (range.1 + remaining, range.2) :: rest,
        putSatPoint rows range.1 ⟨outpoint, value - remaining⟩, ?_, by simp, ?_, by simpa using hfront,
        ?_, ?_⟩
      · rw [assignRanges, if_neg hzero]
        dsimp only
        rw [if_pos hcut]
      · have hjoin : List.range' range.1 remaining ++
            List.range' (range.1 + remaining) (range.2 - (range.1 + remaining)) =
            List.range' range.1 (range.2 - range.1) := by
          rw [List.range'_append_1]
          congr 1
          omega
        simp only [sats_cons, sats_nil, List.append_nil, Nat.add_sub_cancel_left]
        rw [← List.append_assoc, hjoin]
      · intro r hr
        rcases List.mem_cons.mp hr with rfl | hr
        · exact hback
        · exact hinput r (List.mem_cons_of_mem _ hr)
      · exact Placed.cons hfront (.nil _ _ _)
    · have hrest : remaining - (range.2 - range.1) ≤ total rest := by
        rw [total_cons] at henough
        omega
      obtain ⟨ranges, input, rows', hrun, htotal, hsats, hranges, hinput', hplaced⟩ :=
        ih (putSatPoint rows range.1 ⟨outpoint, value - remaining⟩)
          (show remaining - (range.2 - range.1) ≤ value by omega) hrest
          fun r hr => hinput r (List.mem_cons_of_mem _ hr)
      refine ⟨range :: ranges, input, rows', ?_, ?_, ?_, ?_, hinput', ?_⟩
      · rw [assignRanges, if_neg hzero]
        dsimp only
        rw [if_neg hcut, hrun]
        rfl
      · rw [total_cons, htotal]
        omega
      · rw [sats_cons, List.append_assoc, hsats, sats_cons]
      · intro r hr
        rcases List.mem_cons.mp hr with rfl | hr
        · exact hrange
        · exact hranges r hr
      · have hoffset : value - (remaining - (range.2 - range.1)) =
            value - remaining + (range.2 - range.1) := by omega
        rw [hoffset] at hplaced
        exact Placed.cons hrange hplaced

/-! ### Assigning ranges to the outputs of a transaction -/

/-- What assigning the input ranges to outputs yields. -/
structure Assigned (txid : Bytes32) (vout : Nat) (outputs : List TxOut) (input : List SatRange)
    (rows : SatTable) (outs : List (List SatRange)) (rest : List SatRange) (rows' : SatTable) :
    Prop where
  run : assignOutputs txid vout outputs input rows = .ok (outs, rest, rows')
  values : outs.map total = outputs.map fun output => output.value.toNat
  sats : outs.flatMap sats ++ sats rest = sats input
  outs_inBlock : ∀ ranges ∈ outs, ∀ range ∈ ranges, InBlock range
  rest_inBlock : ∀ range ∈ rest, InBlock range
  same : ∀ sat, ¬(FirstSat sat ∧ sat ∈ outs.flatMap Index.sats) → rows' sat = rows sat
  moved : (outs.flatMap Index.sats).Nodup → ∀ j ranges i sat, outs[j]? = some ranges →
    (Index.sats ranges)[i]? = some sat → FirstSat sat →
    rows' sat = some ⟨⟨txid, UInt32.ofNat (vout + j)⟩, i⟩

/-- Outputs that claim no more than the input get their ranges. -/
theorem assignOutputs_spec (txid : Bytes32) {vout : Nat} {outputs : List TxOut}
    {input : List SatRange} (rows : SatTable) (henough : outputsValue outputs ≤ total input)
    (hinput : ∀ range ∈ input, InBlock range) :
    ∃ outs rest rows', Assigned txid vout outputs input rows outs rest rows' := by
  induction outputs generalizing vout input rows with
  | nil => exact ⟨[], input, rows, rfl, rfl, rfl, by simp, hinput, fun _ _ => rfl, by simp⟩
  | cons output outputs ih =>
    have hsum : outputsValue (output :: outputs) =
        output.value.toNat + outputsValue outputs := rfl
    obtain ⟨ranges, middle, rows₁, hrun, htotal, hsats, hranges, hmiddle, hplaced⟩ :=
      assignRanges_spec ⟨txid, UInt32.ofNat vout⟩ output.value.toNat rows le_rfl
        (show output.value.toNat ≤ total input by omega) hinput
    have hlength := congrArg List.length hsats
    rw [List.length_append, length_sats, length_sats, length_sats] at hlength
    obtain ⟨outs, rest, rows', h⟩ := @ih (vout + 1) middle rows₁ (by omega) hmiddle
    refine ⟨ranges :: outs, rest, rows', ?_, ?_, ?_, ?_, h.rest_inBlock, ?_, ?_⟩
    · rw [assignOutputs]
      dsimp only
      rw [hrun]
      show (assignOutputs txid (vout + 1) outputs middle rows₁ >>= _) = _
      rw [h.run]
      rfl
    · rw [List.map_cons, htotal, h.values, List.map_cons]
    · rw [List.flatMap_cons, List.append_assoc, h.sats, hsats]
    · intro r hr
      rcases List.mem_cons.mp hr with rfl | hr
      · exact hranges
      · exact h.outs_inBlock r hr
    · intro sat hnot
      rw [h.same sat fun hmoved => hnot ⟨hmoved.1, List.mem_append_right _ hmoved.2⟩]
      exact hplaced.same sat fun hmoved => hnot ⟨hmoved.1, List.mem_append_left _ hmoved.2⟩
    · intro hnodup j r i sat hj hi hfirst
      rw [List.flatMap_cons] at hnodup
      cases j with
      | zero =>
        obtain rfl : ranges = r := by simpa using hj
        -- no output behind the first one has the sat again
        have hnot : sat ∉ outs.flatMap Index.sats :=
          List.disjoint_of_nodup_append hnodup (List.mem_of_getElem? hi)
        rw [h.same sat fun hmoved => hnot hmoved.2,
          hplaced.moved i sat hi hfirst hnodup.of_append_left]
        congr 2
        omega
      | succ j =>
        rw [h.moved hnodup.of_append_right j r i sat (by simpa using hj) hi hfirst]
        congr 4
        omega

/-! ### Lost ranges -/

theorem putLostRanges_snd (rows : SatTable) (lost : Nat) (ranges : List SatRange) :
    (putLostRanges rows lost ranges).2 = lost + total ranges := by
  induction ranges generalizing rows lost with
  | nil => rfl
  | cons range rest ih => rw [putLostRanges, ih, total_cons, Nat.add_assoc]

/-- The lost ranges of a block lie behind the ones before it. -/
theorem putLostRanges_spec (rows : SatTable) (lost : Nat) {ranges : List SatRange}
    (hranges : ∀ range ∈ ranges, InBlock range) :
    Placed rows (putLostRanges rows lost ranges).1 OutPoint.null lost (sats ranges) := by
  induction ranges generalizing rows lost with
  | nil => exact .nil _ _ _
  | cons range rest ih =>
    exact .cons (hranges range List.mem_cons_self)
      (ih _ _ fun r hr => hranges r (List.mem_cons_of_mem _ hr))

end Lord.Index
