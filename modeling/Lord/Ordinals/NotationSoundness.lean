import Lord.Ordinals.NotationRoundTrip

/-! What the parser of sats accepts: true notations only, as long as the height that a degree writes
fits. -/

namespace Lord.Ordinals.Notation

open Decimal (Numeral)

/-! ### Texts of sats -/

inductive Kind where
  | name
  | degree
  | percentile
  | decimal
  | integer
  deriving Repr, DecidableEq

/-- The kind of notation that `from_str` takes the text for. -/
def kindOf (s : String) : Kind :=
  if s.toList.any fun c => 'a' ≤ c && c ≤ 'z' then .name
  else if '°' ∈ s.toList then .degree
  else if '%' ∈ s.toList then .percentile
  else if '.' ∈ s.toList then .decimal
  else .integer

/-- The text is a degree with these numbers in front of the block offset. -/
def DegreeText (s : String) (cycleNumber epochOffset periodOffset : Nat) (tail : List Char) : Prop :=
  ∃ hour minute second : List Char,
    s.toList = hour ++ '°' :: (minute ++ '′' :: (second ++ '″' :: tail)) ∧
      Numeral hour cycleNumber ∧ Numeral minute epochOffset ∧ Numeral second periodOffset

/-- The rest of a degree writes the block offset, or leaves it out. -/
def BlockText (tail : List Char) (blockOffset : Nat) : Prop :=
  tail = [] ∧ blockOffset = 0 ∨ ∃ block, tail = block ++ ['‴'] ∧ Numeral block blockOffset

/-- The numbers of the text, or its letters, are those of the sat's own notation of that kind. -/
def Notes (s : String) (sat : Nat) : Prop :=
  match kindOf s with
  | .name => name sat = .ok s
  | .degree => ∃ d tail, degree sat = .ok d ∧ DegreeText s d.hour d.minute d.second tail ∧
      BlockText tail d.third
  | .percentile => True
  | .decimal => ∃ d height offset, decimal sat = .ok d ∧ s.toList = height ++ '.' :: offset ∧
      Numeral height d.height ∧ Numeral offset d.offset
  | .integer => Numeral s.toList sat

/-- The parser ends without overflow, and accepts nothing but a notation of the sat. -/
def Sound (s : String) : Prop :=
  ¬Outcome.Panics (fromStr s) ∧
    ∀ sat, fromStr s = .ok sat → sat < supply ∧ Notes s sat

/-- The text is a degree with fitting offsets whose height is no `u32`. -/
def HeightOverflows (s : String) : Prop :=
  kindOf s = .degree ∧ ∃ cycleNumber epochOffset periodOffset tail,
    DegreeText s cycleNumber epochOffset periodOffset tail ∧ cycleNumber < 2 ^ 32 ∧
      epochOffset < 210000 ∧ periodOffset < 2016 ∧
      (2 ^ 32 ≤ cycleNumber * cycleEpochs ∨
        (periodOffset + 1260000 - epochOffset) % halvingIncrement = 0 ∧
          2 ^ 32 ≤ (cycleNumber * cycleEpochs + epochsOf epochOffset periodOffset) *
            subsidyHalvingInterval + epochOffset)

/-! ### Fields -/

theorem parseField_eq_ok {bits n : Nat} {input : String} {text : List Char} :
    parseField bits input text = .ok n ↔ Numeral text n ∧ n < 2 ^ bits := by
  rw [← Decimal.parse_eq_ok, parseField]
  split
  · rename_i hparse
    rw [hparse, Except.ok.injEq, Except.ok.injEq]
  · rename_i hparse
    rw [hparse]
    exact ⟨by rintro ⟨⟩, by rintro ⟨⟩⟩

theorem not_panics_parseField (bits : Nat) (input : String) (text : List Char) :
    ¬Outcome.Panics (parseField bits input text) := by
  rw [parseField]
  split
  · exact Outcome.not_panics_ok _
  · exact Outcome.not_panics_err _

theorem splitField_eq_ok {separator : Char} {kind : ErrorKind} {input : String}
    {text front back : List Char} (h : splitField separator kind input text = .ok (front, back)) :
    text = front ++ separator :: back := by
  rw [splitField] at h
  split at h
  · rename_i hsplit
    cases h
    exact splitOnce_eq_some hsplit
  · cases h

theorem not_panics_splitField (separator : Char) (kind : ErrorKind) (input : String)
    (text : List Char) : ¬Outcome.Panics (splitField separator kind input text) := by
  rw [splitField]
  split
  · exact Outcome.not_panics_ok _
  · exact Outcome.not_panics_err _

/-- A separator that is no digit and no plus sign ends a numeral. -/
theorem splitField_numeral {separator : Char} (hdigit : separator.isDigit = false)
    (hplus : separator ≠ '+') {text : List Char} {n : Nat} (h : Numeral text n) (kind : ErrorKind)
    (input : String) (back : List Char) :
    splitField separator kind input (text ++ separator :: back) = .ok (text, back) := by
  have hnot : separator ∉ text := by
    obtain ⟨digits, htext, -, hdigits, -⟩ := h
    have hmem : separator ∉ digits := by
      intro hc
      rw [hdigits separator hc] at hdigit
      cases hdigit
    rcases htext with rfl | rfl
    · exact hmem
    · exact by simp [hplus, hmem]
  rw [splitField, splitOnce_append hnot]

theorem readBlockOffset_eq_ok {input : String} {text rest : List Char} {blockOffset : Nat}
    (h : readBlockOffset input text = .ok (blockOffset, rest)) (hrest : rest = []) :
    BlockText text blockOffset := by
  rw [readBlockOffset] at h
  split at h
  · rename_i block rest' hsplit
    obtain ⟨n, hn, h⟩ := bind_eq_ok.mp h
    cases h
    right
    refine ⟨block, ?_, (parseField_eq_ok.mp hn).1⟩
    rw [splitOnce_eq_some hsplit, hrest]
  · cases h
    exact .inl ⟨hrest, rfl⟩

theorem not_panics_readBlockOffset (input : String) (text : List Char) :
    ¬Outcome.Panics (readBlockOffset input text) := by
  rw [readBlockOffset]
  split
  · rw [Outcome.panics_bind]
    rintro (h | ⟨n, -, h⟩)
    · exact not_panics_parseField _ _ _ h
    · exact Outcome.not_panics_ok _ h
  · exact Outcome.not_panics_ok _

/-- The end of the parser of decimals and degrees. -/
theorem not_panics_sum {input : String} (height offset : Nat) :
    ¬Outcome.Panics (if Height.subsidy height ≤ offset then ErrorKind.blockOffset.error input
      else startingSat height >>= fun start => Checked.add 64 start offset) := by
  split
  · exact Outcome.not_panics_err _
  · rename_i h
    rw [sum_at (Nat.not_le.mp h)]
    exact Outcome.not_panics_ok _

theorem sum_eq_ok {input : String} {height offset sat : Nat}
    (h : (if Height.subsidy height ≤ offset then ErrorKind.blockOffset.error input
      else startingSat height >>= fun start => Checked.add 64 start offset) = .ok sat) :
    offset < Height.subsidy height ∧ sat = Height.startingSat height + offset ∧ sat < supply := by
  split at h
  · cases h
  · rename_i hlt
    have hoffset := Nat.not_le.mp hlt
    rw [sum_at hoffset] at h
    cases h
    have hsupply := Height.startingSat_le_supply (height + 1)
    rw [Height.startingSat_succ] at hsupply
    exact ⟨hoffset, rfl, by omega⟩

/-! ### Names, decimals and integers -/

theorem not_panics_readName {input : String} {x : Nat} (hx : x ≤ supply) (text : List Char) :
    ¬Outcome.Panics (readName input x text) := by
  induction text generalizing x with
  | nil => exact Outcome.not_panics_ok x
  | cons c rest ih =>
    by_cases hletter : IsLetter c
    · rw [readName_letter hx hletter]
      split
      · exact Outcome.not_panics_err _
      · rename_i hrange
        exact ih (Nat.not_lt.mp hrange)
    · rw [readName_other input x hletter]
      exact Outcome.not_panics_err _

theorem not_panics_fromName (input : String) : ¬Outcome.Panics (fromName input) := by
  rw [fromName, Outcome.panics_bind]
  rintro (h | ⟨x, hx, h⟩)
  · exact not_panics_readName (Nat.zero_le _) _ h
  · obtain ⟨-, -, hle⟩ := (readName_eq_ok (Nat.zero_le _)).mp hx
    rw [Checked.sub_of_le hle] at h
    exact Outcome.not_panics_ok _ h

/-- A name that is accepted is the name of its sat. -/
theorem fromName_eq_ok {s : String} {sat : Nat} (hne : s.toList ≠ []) (h : fromName s = .ok sat) :
    sat < supply ∧ name sat = .ok s := by
  obtain ⟨x, hx, h⟩ := bind_eq_ok.mp h
  obtain ⟨hletters, hvalue, hle⟩ := (readName_eq_ok (Nat.zero_le _)).mp hx
  obtain ⟨-, rfl⟩ := Checked.sub_eq_ok.mp h
  have hpos : 0 < x := by
    obtain ⟨front, c, hlast⟩ := List.eq_nil_or_concat s.toList |>.resolve_left hne
    obtain ⟨hlow, -⟩ := (hletters c (by rw [hlast]; simp)).bounds
    rw [hlast, List.concat_eq_append, nameValue_concat] at hvalue
    omega
  have hback : supply - (supply - x) = x := by omega
  refine ⟨by omega, ?_⟩
  rw [name_eq (Nat.sub_le _ _), hback, ← hvalue, nameFrom_nameValue hletters (Nat.le_refl _),
    List.reverse_reverse, String.ofList_toList]

theorem not_panics_fromDecimal (input : String) : ¬Outcome.Panics (fromDecimal input) := by
  unfold fromDecimal
  rw [Outcome.panics_bind]
  rintro (h | ⟨⟨height, offset⟩, -, h⟩)
  · exact not_panics_splitField _ _ _ _ h
  rw [Outcome.panics_bind] at h
  rcases h with h | ⟨height, -, h⟩
  · exact not_panics_parseField _ _ _ h
  rw [Outcome.panics_bind] at h
  rcases h with h | ⟨offset, -, h⟩
  · exact not_panics_parseField _ _ _ h
  · exact not_panics_sum height offset h

theorem fromDecimal_eq_ok {s : String} {sat : Nat} (h : fromDecimal s = .ok sat) :
    sat < supply ∧ ∃ d height offset, decimal sat = .ok d ∧ s.toList = height ++ '.' :: offset ∧
      Numeral height d.height ∧ Numeral offset d.offset := by
  obtain ⟨⟨heightText, offsetText⟩, hsplit, h⟩ := bind_eq_ok.mp h
  obtain ⟨height, hheight, h⟩ := bind_eq_ok.mp h
  obtain ⟨offset, hoffset, h⟩ := bind_eq_ok.mp h
  obtain ⟨hlt, rfl, hsupply⟩ := sum_eq_ok h
  obtain ⟨hat, hthird⟩ := height_at hlt
  exact ⟨hsupply, ⟨height, offset⟩, heightText, offsetText,
    bind_eq_ok.mpr ⟨_, hat, bind_eq_ok.mpr ⟨_, hthird, rfl⟩⟩, splitField_eq_ok hsplit,
    (parseField_eq_ok.mp hheight).1, (parseField_eq_ok.mp hoffset).1⟩

/-! ### Degrees -/

/-- The height of a degree panics exactly when it is no `u32`. -/
theorem panics_degreeHeight {input : String} {cycleNumber epochOffset periodOffset : Nat}
    (hepoch : epochOffset < 210000) (hperiod : periodOffset < 2016) :
    Outcome.Panics (degreeHeight input cycleNumber epochOffset periodOffset) ↔
      2 ^ 32 ≤ cycleNumber * cycleEpochs ∨
        (periodOffset + 1260000 - epochOffset) % halvingIncrement = 0 ∧
          2 ^ 32 ≤ (cycleNumber * cycleEpochs + epochsOf epochOffset periodOffset) *
            subsidyHalvingInterval + epochOffset := by
  have hepochs : (periodOffset + 1260000 - epochOffset) % diffchangeInterval / halvingIncrement =
      epochsOf epochOffset periodOffset := rfl
  unfold degreeHeight
  rw [relationship_eq hepoch hperiod, Outcome.panics_bind, Outcome.panics_mul]
  constructor
  · rintro (h | ⟨start, hstart, h⟩)
    · exact .inl h
    obtain ⟨-, rfl⟩ := Checked.mul_eq_ok.mp hstart
    rw [ok_bind] at h
    split at h
    · exact absurd h (Outcome.not_panics_err _)
    rename_i hfits
    rw [hepochs] at h
    refine .inr ⟨not_not.mp hfits, ?_⟩
    -- whichever step it is that overflows, the height is at least its result
    rcases Outcome.panics_bind.mp h with h | ⟨epoch, hadd, h⟩
    · have hepoch := Outcome.panics_add.mp h
      have hstart := Nat.le_trans hepoch
        (Nat.le_mul_of_pos_right _ (by decide : 0 < subsidyHalvingInterval))
      exact Nat.le_trans hstart (Nat.le_add_right _ _)
    · obtain ⟨-, rfl⟩ := Checked.add_eq_ok.mp hadd
      rcases Outcome.panics_bind.mp h with h | ⟨first, hmul, h⟩
      · exact Nat.le_trans (Outcome.panics_mul.mp h) (Nat.le_add_right _ _)
      · obtain ⟨-, rfl⟩ := Checked.mul_eq_ok.mp hmul
        exact Outcome.panics_add.mp h
  · rintro (h | ⟨hfits, hheight⟩)
    · exact .inl h
    by_cases hcycle : 2 ^ 32 ≤ cycleNumber * cycleEpochs
    · exact .inl hcycle
    refine .inr ⟨_, Checked.mul_of_lt (Nat.not_le.mp hcycle), ?_⟩
    rw [ok_bind, if_neg (not_not.mpr hfits), hepochs, Outcome.panics_bind, Outcome.panics_add]
    by_cases hepoch : 2 ^ 32 ≤ cycleNumber * cycleEpochs + epochsOf epochOffset periodOffset
    · exact .inl hepoch
    refine .inr ⟨_, Checked.add_of_lt (Nat.not_le.mp hepoch), ?_⟩
    rw [Outcome.panics_bind, Outcome.panics_mul]
    by_cases hstart : 2 ^ 32 ≤
        (cycleNumber * cycleEpochs + epochsOf epochOffset periodOffset) * subsidyHalvingInterval
    · exact .inl hstart
    · exact .inr ⟨_, Checked.mul_of_lt (Nat.not_le.mp hstart), Outcome.panics_add.mpr hheight⟩

/-- A degree panics exactly in its height. -/
theorem panics_fromDegree {s : String} : Outcome.Panics (fromDegree s) ↔
    ∃ cycleNumber epochOffset periodOffset tail,
      DegreeText s cycleNumber epochOffset periodOffset tail ∧ cycleNumber < 2 ^ 32 ∧
        epochOffset < 210000 ∧ periodOffset < 2016 ∧
        Outcome.Panics (degreeHeight s cycleNumber epochOffset periodOffset) := by
  unfold fromDegree
  constructor
  · intro h
    rcases Outcome.panics_bind.mp h with h | ⟨⟨hour, rest⟩, hhour, h⟩
    · exact absurd h (not_panics_splitField _ _ _ _)
    rcases Outcome.panics_bind.mp h with h | ⟨cycleNumber, hcycle, h⟩
    · exact absurd h (not_panics_parseField _ _ _)
    rcases Outcome.panics_bind.mp h with h | ⟨⟨minute, rest'⟩, hminute, h⟩
    · exact absurd h (not_panics_splitField _ _ _ _)
    rcases Outcome.panics_bind.mp h with h | ⟨epochOffset, hepoch, h⟩
    · exact absurd h (not_panics_parseField _ _ _)
    split at h
    · exact absurd h (Outcome.not_panics_err _)
    rename_i hepochLt
    rcases Outcome.panics_bind.mp h with h | ⟨⟨second, tail⟩, hsecond, h⟩
    · exact absurd h (not_panics_splitField _ _ _ _)
    rcases Outcome.panics_bind.mp h with h | ⟨periodOffset, hperiod, h⟩
    · exact absurd h (not_panics_parseField _ _ _)
    split at h
    · exact absurd h (Outcome.not_panics_err _)
    rename_i hperiodLt
    obtain ⟨hhourText, hcycleLt⟩ := parseField_eq_ok.mp hcycle
    have htext : DegreeText s cycleNumber epochOffset periodOffset tail := by
      refine ⟨hour, minute, second, ?_, hhourText, (parseField_eq_ok.mp hepoch).1,
        (parseField_eq_ok.mp hperiod).1⟩
      rw [splitField_eq_ok hhour, splitField_eq_ok hminute, splitField_eq_ok hsecond]
    refine ⟨cycleNumber, epochOffset, periodOffset, tail, htext, hcycleLt,
      Nat.not_le.mp hepochLt, Nat.not_le.mp hperiodLt, ?_⟩
    rcases Outcome.panics_bind.mp h with h | ⟨height, -, h⟩
    · exact h
    rcases Outcome.panics_bind.mp h with h | ⟨⟨blockOffset, rest⟩, -, h⟩
    · exact absurd h (not_panics_readBlockOffset _ _)
    dsimp only at h
    by_cases hrest : rest ≠ []
    · rw [if_pos hrest] at h
      exact absurd h (Outcome.not_panics_err _)
    · rw [if_neg hrest] at h
      exact absurd h (not_panics_sum height blockOffset)
  · rintro ⟨cycleNumber, epochOffset, periodOffset, tail, ⟨hour, minute, second, htext, hhour,
      hminute, hsecond⟩, hcycle, hepoch, hperiod, h⟩
    have hinterval : subsidyHalvingInterval = 210000 := rfl
    have hdiffchange : diffchangeInterval = 2016 := rfl
    rw [htext, splitField_numeral (by decide) (by decide) hhour]
    refine Outcome.panics_bind.mpr (.inr ⟨_, rfl, ?_⟩)
    refine Outcome.panics_bind.mpr (.inr ⟨_, parseField_eq_ok.mpr ⟨hhour, hcycle⟩, ?_⟩)
    refine Outcome.panics_bind.mpr (.inr
      ⟨_, splitField_numeral (by decide) (by decide) hminute _ _ _, ?_⟩)
    refine Outcome.panics_bind.mpr (.inr ⟨_, parseField_eq_ok.mpr ⟨hminute, by omega⟩, ?_⟩)
    rw [if_neg (by omega)]
    refine Outcome.panics_bind.mpr (.inr
      ⟨_, splitField_numeral (by decide) (by decide) hsecond _ _ _, ?_⟩)
    refine Outcome.panics_bind.mpr (.inr ⟨_, parseField_eq_ok.mpr ⟨hsecond, by omega⟩, ?_⟩)
    rw [if_neg (by omega)]
    exact Outcome.panics_bind.mpr (.inl h)

/-- A degree that is accepted is the degree of its sat. -/
theorem fromDegree_eq_ok {s : String} {sat : Nat} (h : fromDegree s = .ok sat) :
    sat < supply ∧ ∃ d tail, degree sat = .ok d ∧ DegreeText s d.hour d.minute d.second tail ∧
      BlockText tail d.third := by
  obtain ⟨⟨hour, rest⟩, hhour, h⟩ := bind_eq_ok.mp h
  obtain ⟨cycleNumber, hcycle, h⟩ := bind_eq_ok.mp h
  obtain ⟨⟨minute, rest'⟩, hminute, h⟩ := bind_eq_ok.mp h
  obtain ⟨epochOffset, hepoch, h⟩ := bind_eq_ok.mp h
  split at h
  · cases h
  rename_i hepochLt
  obtain ⟨⟨second, tail⟩, hsecond, h⟩ := bind_eq_ok.mp h
  obtain ⟨periodOffset, hperiod, h⟩ := bind_eq_ok.mp h
  split at h
  · cases h
  rename_i hperiodLt
  obtain ⟨height, hheight, h⟩ := bind_eq_ok.mp h
  obtain ⟨⟨blockOffset, last⟩, hblock, h⟩ := bind_eq_ok.mp h
  dsimp only at h
  by_cases hlast : last ≠ []
  · rw [if_pos hlast] at h
    cases h
  rw [if_neg hlast] at h
  obtain ⟨hlt, rfl, hsupply⟩ := sum_eq_ok h
  have hepochBound : epochOffset < 210000 := Nat.not_le.mp hepochLt
  have hperiodBound : periodOffset < 2016 := Nat.not_le.mp hperiodLt
  obtain ⟨hfits, hsum, -⟩ := (degreeHeight_eq_ok hepochBound hperiodBound).mp hheight
  obtain ⟨hhourEq, hminuteEq, hsecondEq⟩ := height_epochsOf hepochBound hperiodBound hfits hsum
  refine ⟨hsupply, degreeAt height blockOffset, tail, degree_at hlt, ?_,
    readBlockOffset_eq_ok hblock (not_not.mp hlast)⟩
  refine ⟨hour, minute, second, ?_, ?_, ?_, ?_⟩
  · rw [splitField_eq_ok hhour, splitField_eq_ok hminute, splitField_eq_ok hsecond]
  · rw [degreeAt, hhourEq]
    exact (parseField_eq_ok.mp hcycle).1
  · rw [degreeAt, hminuteEq]
    exact (parseField_eq_ok.mp hepoch).1
  · rw [degreeAt, hsecondEq]
    exact (parseField_eq_ok.mp hperiod).1

/-! ### The parser -/

theorem integer_eq_ok {s : String} {sat : Nat}
    (h : (parseField 64 s s.toList >>= fun sat =>
      if last < sat then ErrorKind.integerRange.error s else .ok sat) = .ok sat) :
    sat < supply ∧ Numeral s.toList sat := by
  obtain ⟨n, hn, h⟩ := bind_eq_ok.mp h
  have hlast : last + 1 = supply := by decide
  split at h
  · cases h
  · cases h
    exact ⟨by omega, (parseField_eq_ok.mp hn).1⟩

theorem not_panics_integer (s : String) :
    ¬Outcome.Panics (parseField 64 s s.toList >>= fun sat =>
      if last < sat then ErrorKind.integerRange.error s else .ok sat) := by
  intro h
  rcases Outcome.panics_bind.mp h with h | ⟨n, -, h⟩
  · exact not_panics_parseField _ _ _ h
  split at h
  · exact Outcome.not_panics_err _ h
  · exact Outcome.not_panics_ok _ h

theorem not_panics_fromPercentile (s : String) : ¬Outcome.Panics (fromPercentile s) := by
  unfold fromPercentile
  split
  · exact Outcome.not_panics_err _
  cases Float64.parse s.toList.dropLast with
  | error source => exact Outcome.not_panics_err _
  | ok percentile =>
    dsimp only
    split
    · exact Outcome.not_panics_err _
    split
    · exact Outcome.not_panics_err _
    · exact Outcome.not_panics_ok _

/-- The last sat is a number in floating point, so the check against it bounds the sat. -/
theorem lt_supply_of_fromPercentile {s : String} {sat : Nat} (h : fromPercentile s = .ok sat) :
    sat < supply := by
  have hlast : (UInt64.ofNat last).toFloat.toUInt64.toNat + 1 = supply := by decide +kernel
  unfold fromPercentile at h
  split at h
  · cases h
  cases hparse : Float64.parse s.toList.dropLast with
  | error source =>
    rw [hparse] at h
    cases h
  | ok percentile =>
    rw [hparse] at h
    dsimp only at h
    split at h
    · cases h
    split at h
    · cases h
    · rename_i hle
      cases h
      have hcast := Float64.toUInt64_le (by decide +kernel) hle
      omega

example : fromPercentile "100%" = .ok last := by decide +kernel

/-- The parser of the kind of the text. -/
theorem fromStr_eq (s : String) :
    fromStr s = match kindOf s with
      | .name => fromName s
      | .degree => fromDegree s
      | .percentile => fromPercentile s
      | .decimal => fromDecimal s
      | .integer => parseField 64 s s.toList >>= fun sat =>
        if last < sat then ErrorKind.integerRange.error s else .ok sat := by
  unfold fromStr kindOf
  split
  · rfl
  split
  · rfl
  split
  · rfl
  split <;> rfl

theorem panics_fromStr (s : String) :
    Outcome.Panics (fromStr s) ↔ HeightOverflows s := by
  rw [fromStr_eq, HeightOverflows]
  cases kindOf s with
  | name =>
    exact ⟨fun h => absurd h (not_panics_fromName s), fun h => (nomatch h.1)⟩
  | percentile =>
    exact ⟨fun h => absurd h (not_panics_fromPercentile s), fun h => (nomatch h.1)⟩
  | decimal =>
    exact ⟨fun h => absurd h (not_panics_fromDecimal s), fun h => (nomatch h.1)⟩
  | integer =>
    exact ⟨fun h => absurd h (not_panics_integer s), fun h => (nomatch h.1)⟩
  | degree =>
    dsimp only
    rw [panics_fromDegree]
    constructor
    · rintro ⟨cycleNumber, epochOffset, periodOffset, tail, htext, hcycle, hepoch, hperiod, h⟩
      exact ⟨rfl, cycleNumber, epochOffset, periodOffset, tail, htext, hcycle, hepoch, hperiod,
        (panics_degreeHeight hepoch hperiod).mp h⟩
    · rintro ⟨-, cycleNumber, epochOffset, periodOffset, tail, htext, hcycle, hepoch, hperiod, h⟩
      exact ⟨cycleNumber, epochOffset, periodOffset, tail, htext, hcycle, hepoch, hperiod,
        (panics_degreeHeight hepoch hperiod).mpr h⟩

theorem notes_of_fromStr_eq_ok {s : String} {sat : Nat} (h : fromStr s = .ok sat) :
    sat < supply ∧ Notes s sat := by
  rw [fromStr_eq] at h
  rw [Notes]
  have hname : kindOf s = .name → s.toList ≠ [] := by
    intro hk hnil
    rw [kindOf, hnil] at hk
    cases hk
  cases hk : kindOf s with
  | name =>
    rw [hk] at h
    exact fromName_eq_ok (hname hk) h
  | degree =>
    rw [hk] at h
    exact fromDegree_eq_ok h
  | percentile =>
    rw [hk] at h
    exact ⟨lt_supply_of_fromPercentile h, trivial⟩
  | decimal =>
    rw [hk] at h
    exact fromDecimal_eq_ok h
  | integer =>
    rw [hk] at h
    exact integer_eq_ok h

/-- The parser is sound exactly on the texts that are no degree whose height is no `u32`. -/
theorem fromStr_sound_iff (s : String) : Sound s ↔ ¬HeightOverflows s := by
  rw [← panics_fromStr]
  exact ⟨fun h => h.1, fun h => ⟨h, fun _ hok => notes_of_fromStr_eq_ok hok⟩⟩

/-- A cycle far beyond the last sat. -/
theorem not_sound_beyond : ¬Sound "3409°0′0″0‴" := by
  intro h
  refine h.1 ⟨"attempt to multiply with overflow", ?_⟩
  decide +kernel

end Lord.Ordinals.Notation
