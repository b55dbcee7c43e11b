import Lord.Index.FindRange
import Lord.Ordinals.NotationSoundness
import Lord.Ordinals.NotationTotals

/-! Which sats a user may ask for: the numbers that the server shows, and the bounds check of a search
for a range of sats. -/

namespace Lord.Index

open Bitcoin Ordinals Notation

/-- The start of `Index::find_range`, up to the scan: the number of sats that are searched, or none if
the range is not mined yet. -/
def checkBounds (blockCount rangeStart rangeEnd : Nat) : Outcome (Option Nat) := do
  let lastSat ← Checked.sub rangeEnd 1
  let height ← Notation.height lastSat
  let blocks ← Checked.add 32 height 1
  if blockCount < blocks then
    .ok none
  else if rangeEnd < rangeStart then
    .error (.err "range end is before range start")
  else
    .ok (some (rangeEnd - rangeStart))

/-! ### The check is the one of the search -/

/-- The two models of `Sat::height` agree. -/
theorem heightOf_eq (sat : Nat) : heightOf sat = Notation.height sat := by
  by_cases h : sat < supply
  · obtain ⟨block, hblock, hlo, hhi⟩ := Sat.height_spec h
    have hoffset : sat - Height.startingSat block < Height.subsidy block := by
      rw [Height.startingSat_succ] at hhi
      omega
    have hat := (height_at hoffset).1
    rw [Nat.add_sub_cancel' hlo] at hat
    rw [heightOf, hblock, hat]
    rfl
  · have hle := Nat.not_lt.mp h
    rw [height_of_le hle, heightOf, Sat.height, ofSat_of_le hle]
    rfl

theorem findRange_eq_checkBounds (config : IndexConfig) (tables : Tables)
    (rows : List (OutPoint × Bytes)) {rangeStart rangeEnd : Nat} (h : rangeEnd ≤ supply) :
    findRange config tables rows rangeStart rangeEnd =
      checkBounds tables.headers.length rangeStart rangeEnd >>= fun
        | none => .ok none
        | some remainingSats =>
          findRangeInEntries config rangeStart rangeEnd remainingSats rows >>= fun pieces =>
            .ok (some pieces) := by
  rw [findRange, checkBounds]
  by_cases hzero : rangeEnd = 0
  · rw [if_pos hzero, hzero]
    rfl
  rw [if_neg hzero, heightOf_eq, Checked.sub_of_le (by omega), ok_bind]
  obtain ⟨block, offset, hoffset, hsat⟩ := exists_block (by omega : rangeEnd - 1 < supply)
  have hbound := height_lt_of_subsidy (Nat.zero_lt_of_lt hoffset)
  rw [hsat, (height_at hoffset).1, ok_bind, ok_bind, Checked.add_of_lt (by omega), ok_bind]
  split
  · rfl
  split <;> rfl

/-! ### When it panics -/

theorem panics_checkBounds {blockCount rangeStart rangeEnd : Nat} (h : rangeEnd ≤ supply) :
    Outcome.Panics (checkBounds blockCount rangeStart rangeEnd) ↔ rangeEnd = 0 := by
  rw [checkBounds, Outcome.panics_bind, Outcome.panics_sub]
  constructor
  · rintro (hzero | ⟨lastSat, hlast, hpanics⟩)
    · omega
    obtain ⟨hle, rfl⟩ := Checked.sub_eq_ok.mp hlast
    obtain ⟨block, offset, hoffset, hsat⟩ := exists_block (by omega : rangeEnd - 1 < supply)
    have hbound := height_lt_of_subsidy (Nat.zero_lt_of_lt hoffset)
    rw [hsat, (height_at hoffset).1, ok_bind, Checked.add_of_lt (by omega), ok_bind] at hpanics
    split at hpanics
    · exact absurd hpanics (Outcome.not_panics_ok _)
    split at hpanics
    · exact absurd hpanics (Outcome.not_panics_err _)
    · exact absurd hpanics (Outcome.not_panics_ok _)
  · rintro rfl
    exact .inl (by decide)

/-- A number that is shown evaluates exactly when it is a sat, and the bounds check of the sats that
are searched ends without a panic exactly when the range does not end at zero. -/
theorem sat_arithmetic_iff (blockCount : Nat) :
    (∀ n < 2 ^ 64, Evaluates n ↔ n < supply) ∧
      ∀ startText endText rangeStart rangeEnd, fromStr startText = .ok rangeStart →
        fromStr endText = .ok rangeEnd →
          (¬Outcome.Panics (checkBounds blockCount rangeStart rangeEnd) ↔ rangeEnd ≠ 0) := by
  refine ⟨fun n _ => evaluates_iff n, ?_⟩
  intro startText endText rangeStart rangeEnd _ hend
  rw [panics_checkBounds (notes_of_fromStr_eq_ok hend).1.le]

/-- The first sat, and the sats in front of the second one. -/
theorem sat_arithmetic_first :
    Evaluates 0 ∧ ¬Outcome.Panics (checkBounds 1 0 1) := by
  have hall := sat_arithmetic_iff 1
  refine ⟨(hall.1 0 (by decide)).mpr (by decide), ?_⟩
  exact (hall.2 "0" "1" 0 1 (by decide +kernel) (by decide +kernel)).mpr (by decide)

/-- The number behind the last sat has no height, and a range that ends at sat zero has no last sat. -/
theorem not_total_behind :
    ¬Evaluates 2099999997690000 ∧ fromStr "0" = .ok 0 ∧ Outcome.Panics (checkBounds 1 0 0) := by
  refine ⟨fun h => h.height ⟨_, height_of_le (Nat.le_refl _)⟩, by decide +kernel, ?_⟩
  exact (panics_checkBounds (Nat.zero_le _)).mpr rfl

end Lord.Index
