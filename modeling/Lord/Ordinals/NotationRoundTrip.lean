import Lord.Ordinals.Notation
import Mathlib.Data.List.Induction

/-! The notations of a sat parse to it. -/

namespace Lord.Ordinals.Notation

/-! ### Blocks -/

theorem startingHeight_eq {epoch : Nat} (h : Epoch.startingHeight epoch < 2 ^ 32) :
    startingHeight epoch = .ok (Epoch.startingHeight epoch) :=
  Checked.mul_of_lt h

/-- On the heights the checked start of a block is the start of the block. -/
theorem startingSat_eq {height : Nat} (h : height < 2 ^ 32) :
    startingSat height = .ok (Height.startingSat height) := by
  have hsupply := Height.startingSat_le_supply height
  have hsubsidy := Epoch.subsidy_le (Epoch.ofHeight height)
  have hstart : Epoch.ofHeight height * subsidyHalvingInterval ≤ height := by
    show height / 210000 * 210000 ≤ height
    omega
  have hblocks : height - Epoch.ofHeight height * subsidyHalvingInterval < 210000 := by
    show height - height / 210000 * 210000 < 210000
    omega
  have hsats : (height - Epoch.ofHeight height * subsidyHalvingInterval) *
      Epoch.subsidy (Epoch.ofHeight height) < 2 ^ 64 := by
    have hle := Nat.mul_le_mul hblocks.le hsubsidy
    exact Nat.lt_of_le_of_lt hle (by decide)
  have hsum : Epoch.startingSat (Epoch.ofHeight height) +
      (height - Epoch.ofHeight height * subsidyHalvingInterval) *
        Epoch.subsidy (Epoch.ofHeight height) < 2 ^ 64 :=
    Nat.lt_of_le_of_lt hsupply (by decide)
  refine bind_eq_ok.mpr ⟨_, startingHeight_eq (Nat.lt_of_le_of_lt hstart h), ?_⟩
  refine bind_eq_ok.mpr ⟨_, Checked.sub_of_le hstart, ?_⟩
  exact bind_eq_ok.mpr ⟨_, Checked.mul_of_lt hsats, Checked.add_of_lt hsum⟩

/-- The epoch and the position in it of a sat of a block. -/
theorem epoch_at {height offset : Nat} (h : offset < Height.subsidy height) :
    Epoch.ofSat (Height.startingSat height + offset) = Epoch.ofHeight height ∧
      epochPosition (Height.startingSat height + offset) =
        .ok ((height - Epoch.startingHeight (Epoch.ofHeight height)) *
          Epoch.subsidy (Epoch.ofHeight height) + offset) := by
  have hepoch : Epoch.ofHeight height < 33 := Height.epoch_lt (Nat.zero_lt_of_lt h)
  have hblocks : height - Epoch.startingHeight (Epoch.ofHeight height) + 1 ≤
      subsidyHalvingInterval := by
    show height - height / 210000 * 210000 + 1 ≤ 210000
    omega
  rw [Height.startingSat]
  rw [Height.subsidy] at h
  generalize height - Epoch.startingHeight (Epoch.ofHeight height) = blocks at *
  generalize Epoch.ofHeight height = epoch at *
  have hnext := Epoch.startingSat_succ hepoch
  have hroom := Nat.mul_le_mul_right (Epoch.subsidy epoch) hblocks
  rw [Nat.add_mul, Nat.one_mul] at hroom
  have hof : Epoch.ofSat (Epoch.startingSat epoch + blocks * Epoch.subsidy epoch + offset) = epoch :=
    Epoch.ofSat_eq hepoch (by omega) (by omega)
  refine ⟨hof, ?_⟩
  rw [epochPosition, hof, Checked.sub_of_le (by omega), Nat.add_assoc, Nat.add_sub_cancel_left]

/-- A sat of a block has its height and its offset. -/
theorem height_at {height offset : Nat} (h : offset < Height.subsidy height) :
    Notation.height (Height.startingSat height + offset) = .ok height ∧
      third (Height.startingSat height + offset) = .ok offset := by
  obtain ⟨hof, hposition⟩ := epoch_at h
  have hepoch : Epoch.ofHeight height < 33 := Height.epoch_lt (Nat.zero_lt_of_lt h)
  have hpos := Epoch.subsidy_pos hepoch
  have hoffset : offset < Epoch.subsidy (Epoch.ofHeight height) := h
  have hstart : Epoch.ofHeight height * subsidyHalvingInterval < 2 ^ 32 := by
    have hle : Epoch.ofHeight height * 210000 ≤ 33 * 210000 := by omega
    exact Nat.lt_of_le_of_lt hle (by decide)
  have hsplit : Epoch.ofHeight height * subsidyHalvingInterval +
      (height - Epoch.startingHeight (Epoch.ofHeight height)) = height := by
    show height / 210000 * 210000 + (height - height / 210000 * 210000) = height
    omega
  have hbound : height < 33 * 210000 := by
    have hlt : height / 210000 < 33 := hepoch
    omega
  have hdiv : ((height - Epoch.startingHeight (Epoch.ofHeight height)) *
      Epoch.subsidy (Epoch.ofHeight height) + offset) / Epoch.subsidy (Epoch.ofHeight height) =
      height - Epoch.startingHeight (Epoch.ofHeight height) := by
    rw [Nat.mul_comm, Nat.mul_add_div hpos, Nat.div_eq_of_lt hoffset, Nat.add_zero]
  have hmod : ((height - Epoch.startingHeight (Epoch.ofHeight height)) *
      Epoch.subsidy (Epoch.ofHeight height) + offset) % Epoch.subsidy (Epoch.ofHeight height) =
      offset := by
    rw [Nat.mul_comm, Nat.mul_add_mod, Nat.mod_eq_of_lt hoffset]
  constructor
  · unfold Notation.height
    rw [hof]
    refine bind_eq_ok.mpr ⟨_, startingHeight_eq hstart, ?_⟩
    refine bind_eq_ok.mpr ⟨_, hposition, ?_⟩
    refine bind_eq_ok.mpr ⟨_, Checked.div_of_pos hpos, ?_⟩
    rw [hdiv, if_pos (by omega), Epoch.startingHeight, Checked.add_of_lt (by omega)]
    exact congrArg Except.ok hsplit
  · unfold third
    rw [hof]
    refine bind_eq_ok.mpr ⟨_, hposition, ?_⟩
    rw [Checked.rem_of_pos hpos, hmod]

/-- Every sat that is ever mined lies in a block. -/
theorem exists_block {sat : Nat} (h : sat < supply) :
    ∃ height offset, offset < Height.subsidy height ∧ sat = Height.startingSat height + offset := by
  obtain ⟨height, -, hlo, hhi⟩ := Sat.height_spec h
  rw [Height.startingSat_succ] at hhi
  exact ⟨height, sat - Height.startingSat height, by omega, by omega⟩

theorem height_lt_of_subsidy {height : Nat} (h : 0 < Height.subsidy height) :
    height < 33 * 210000 := by
  have hlt : height / 210000 < 33 := Height.epoch_lt h
  omega

/-- The last step of the parser of decimals and degrees. -/
theorem sum_at {height offset : Nat} (h : offset < Height.subsidy height) :
    (startingSat height >>= fun start => Checked.add 64 start offset) =
      .ok (Height.startingSat height + offset) := by
  have hbound := height_lt_of_subsidy (Nat.zero_lt_of_lt h)
  have hsupply := Height.startingSat_le_supply (height + 1)
  rw [Height.startingSat_succ] at hsupply
  have hlt : Height.startingSat height + offset < 2 ^ 64 :=
    Nat.lt_of_lt_of_le (by omega) (by decide : supply ≤ 2 ^ 64)
  exact bind_eq_ok.mpr ⟨_, startingSat_eq (by omega), Checked.add_of_lt hlt⟩

/-! ### Fields -/

theorem splitOnce_append {separator : Char} {front : List Char} (h : separator ∉ front)
    (back : List Char) : splitOnce separator (front ++ separator :: back) = some (front, back) := by
  induction front with
  | nil => exact if_pos rfl
  | cons c front ih =>
    rw [List.mem_cons, not_or] at h
    rw [List.cons_append, splitOnce, if_neg (Ne.symm h.1), ih h.2]
    rfl

theorem splitOnce_eq_some {separator : Char} {text front back : List Char}
    (h : splitOnce separator text = some (front, back)) : text = front ++ separator :: back := by
  induction text generalizing front with
  | nil => cases h
  | cons c text ih =>
    rw [splitOnce] at h
    split at h
    · rename_i hc
      cases h
      rw [hc]
      rfl
    · obtain ⟨⟨front', back'⟩, hparts, heq⟩ := Option.map_eq_some_iff.mp h
      cases heq
      rw [ih hparts]
      rfl

theorem parseField_toString {bits n : Nat} (h : n < 2 ^ bits) (input : String) :
    parseField bits input (toString n).toList = .ok n := by
  rw [parseField, Decimal.parse_toString h]

/-- A character that is no digit is not in the text of a number. -/
theorem not_mem_toString {c : Char} (h : c.isDigit = false) (n : Nat) :
    c ∉ (toString n).toList := by
  intro hc
  rw [Decimal.isDigit_of_mem_toString hc] at h
  cases h

theorem splitField_toString {separator : Char} (h : separator.isDigit = false) (kind : ErrorKind)
    (input : String) (n : Nat) (back : List Char) :
    splitField separator kind input ((toString n).toList ++ separator :: back) =
      .ok ((toString n).toList, back) := by
  rw [splitField, splitOnce_append (not_mem_toString h n)]

/-! ### Integers and decimals -/

theorem not_lower_of_isDigit {c : Char} (h : c.isDigit = true) : ¬('a' ≤ c ∧ c ≤ 'z') := by
  rintro ⟨hlow, -⟩
  simp only [Char.isDigit, Bool.and_eq_true, decide_eq_true_eq] at h
  have hdigit : c.val.toNat ≤ 57 := UInt32.le_iff_toNat_le.mp h.2
  have hletter : 97 ≤ c.val.toNat := UInt32.le_iff_toNat_le.mp hlow
  omega

theorem toList_decimalText (d : DecimalSat) :
    d.text.toList = (toString d.height).toList ++ '.' :: (toString d.offset).toList := by
  rw [DecimalSat.text, String.toList_append, String.toList_append, List.append_assoc]
  rfl

/-- Text without lowercase letters is no name. -/
theorem fromStr_of_not_name {s : String} (h : ∀ c ∈ s.toList, ¬('a' ≤ c ∧ c ≤ 'z')) :
    fromStr s = if '°' ∈ s.toList then fromDegree s
      else if '%' ∈ s.toList then fromPercentile s
      else if '.' ∈ s.toList then fromDecimal s
      else parseField 64 s s.toList >>= fun sat =>
        if last < sat then ErrorKind.integerRange.error s else .ok sat := by
  have hname : (s.toList.any fun c => 'a' ≤ c && c ≤ 'z') = false := by
    rw [List.any_eq_false]
    intro c hc
    simpa using h c hc
  rw [fromStr, hname]
  rfl

theorem fromStr_integer {sat : Nat} (h : sat < supply) : fromStr (toString sat) = .ok sat := by
  have hdigits : ∀ c ∈ (toString sat).toList, ¬('a' ≤ c ∧ c ≤ 'z') :=
    fun c hc => not_lower_of_isDigit (Decimal.isDigit_of_mem_toString hc)
  have hbound : supply < 2 ^ 64 := by decide
  have hlast : last + 1 = supply := by decide
  rw [fromStr_of_not_name hdigits, if_neg (not_mem_toString (by decide) sat),
    if_neg (not_mem_toString (by decide) sat), if_neg (not_mem_toString (by decide) sat)]
  refine bind_eq_ok.mpr ⟨_, parseField_toString (by omega) _, ?_⟩
  rw [if_neg (by omega)]

theorem fromStr_decimal {height offset : Nat} (h : offset < Height.subsidy height) :
    fromStr (DecimalSat.text ⟨height, offset⟩) = .ok (Height.startingSat height + offset) := by
  have hbound := height_lt_of_subsidy (Nat.zero_lt_of_lt h)
  have hsubsidy : Height.subsidy height ≤ 50 * coinValue := Height.subsidy_le height
  have hcoin : 50 * coinValue < 2 ^ 64 := by decide
  have htext := toList_decimalText ⟨height, offset⟩
  generalize DecimalSat.text ⟨height, offset⟩ = text at htext
  dsimp only at htext
  have hmem : ∀ {c : Char}, c.isDigit = false → c ≠ '.' → c ∉ text.toList := by
    intro c hc hne
    rw [htext, List.mem_append, List.mem_cons]
    rintro (hmem | rfl | hmem)
    · exact not_mem_toString hc _ hmem
    · exact hne rfl
    · exact not_mem_toString hc _ hmem
  have hlow : ∀ c ∈ text.toList, ¬('a' ≤ c ∧ c ≤ 'z') := by
    intro c hc
    rw [htext, List.mem_append, List.mem_cons] at hc
    rcases hc with hc | rfl | hc
    · exact not_lower_of_isDigit (Decimal.isDigit_of_mem_toString hc)
    · decide
    · exact not_lower_of_isDigit (Decimal.isDigit_of_mem_toString hc)
  rw [fromStr_of_not_name hlow, if_neg (hmem (by decide) (by decide)),
    if_neg (hmem (by decide) (by decide)), if_pos (by rw [htext]; simp)]
  unfold fromDecimal
  refine bind_eq_ok.mpr ⟨_, by rw [htext]; exact splitField_toString (by decide) _ _ _ _, ?_⟩
  refine bind_eq_ok.mpr ⟨_, parseField_toString (by omega) _, ?_⟩
  refine bind_eq_ok.mpr ⟨_, parseField_toString (by omega) _, ?_⟩
  rw [if_neg (by omega)]
  exact sum_at h

/-! ### Degrees -/

/-- The epochs since the start of the cycle that the two offsets tell. -/
def epochsOf (epochOffset periodOffset : Nat) : Nat :=
  (periodOffset + 1260000 - epochOffset) % 2016 / 336

theorem relationship_eq {epochOffset periodOffset : Nat} (hepoch : epochOffset < 210000)
    (hperiod : periodOffset < 2016) :
    relationship epochOffset periodOffset = .ok (periodOffset + 1260000 - epochOffset) := by
  have hcycle : Checked.mul 32 subsidyHalvingInterval cycleEpochs = .ok 1260000 := rfl
  refine bind_eq_ok.mpr ⟨_, hcycle, ?_⟩
  exact bind_eq_ok.mpr ⟨_, Checked.add_of_lt (by omega), Checked.sub_of_le (by omega)⟩

/-- The height is found exactly when the offsets fit each other and the height is a `u32`. -/
theorem degreeHeight_eq_ok {input : String} {cycleNumber epochOffset periodOffset height : Nat}
    (hepoch : epochOffset < 210000) (hperiod : periodOffset < 2016) :
    degreeHeight input cycleNumber epochOffset periodOffset = .ok height ↔
      (periodOffset + 1260000 - epochOffset) % halvingIncrement = 0 ∧
        (cycleNumber * cycleEpochs + epochsOf epochOffset periodOffset) * subsidyHalvingInterval +
            epochOffset = height ∧
        height < 2 ^ 32 := by
  have hepochs : (periodOffset + 1260000 - epochOffset) % diffchangeInterval / halvingIncrement =
      epochsOf epochOffset periodOffset := rfl
  unfold degreeHeight
  rw [relationship_eq hepoch hperiod]
  constructor
  · intro h
    obtain ⟨start, hstart, h⟩ := bind_eq_ok.mp h
    obtain ⟨-, rfl⟩ := Checked.mul_eq_ok.mp hstart
    obtain ⟨relationship, hrelationship, h⟩ := bind_eq_ok.mp h
    cases hrelationship
    split at h
    · cases h
    rename_i hfits
    obtain ⟨epoch, hadd, h⟩ := bind_eq_ok.mp h
    obtain ⟨-, rfl⟩ := Checked.add_eq_ok.mp hadd
    obtain ⟨first, hmul, h⟩ := bind_eq_ok.mp h
    obtain ⟨-, rfl⟩ := Checked.mul_eq_ok.mp hmul
    obtain ⟨hlt, rfl⟩ := Checked.add_eq_ok.mp h
    rw [hepochs] at hlt ⊢
    exact ⟨not_not.mp hfits, rfl, hlt⟩
  · rintro ⟨hfits, rfl, hlt⟩
    have hstart := Nat.lt_of_le_of_lt (Nat.le_add_right _ _) hlt
    have hepoch := Nat.lt_of_le_of_lt (Nat.le_mul_of_pos_right _ (by decide)) hstart
    have hcycle := Nat.lt_of_le_of_lt (Nat.le_add_right _ _) hepoch
    refine bind_eq_ok.mpr ⟨_, Checked.mul_of_lt hcycle, ?_⟩
    refine bind_eq_ok.mpr ⟨_, rfl, ?_⟩
    rw [if_neg (not_not.mpr hfits), hepochs]
    refine bind_eq_ok.mpr ⟨_, Checked.add_of_lt hepoch, ?_⟩
    exact bind_eq_ok.mpr ⟨_, Checked.mul_of_lt hstart, Checked.add_of_lt hlt⟩

/-- The offsets of a height tell its epoch within the cycle. -/
theorem epochsOf_height (height : Nat) :
    (height % diffchangeInterval + 1260000 - height % subsidyHalvingInterval) % halvingIncrement =
        0 ∧
      (height / (cycleEpochs * subsidyHalvingInterval) * cycleEpochs +
          epochsOf (height % subsidyHalvingInterval) (height % diffchangeInterval)) *
        subsidyHalvingInterval + height % subsidyHalvingInterval = height := by
  have hincrement : halvingIncrement = 336 := rfl
  simp only [hincrement, cycleEpochs, subsidyHalvingInterval, diffchangeInterval, epochsOf]
  omega

/-- The height that offsets are combined to has these offsets. -/
theorem height_epochsOf {cycleNumber epochOffset periodOffset height : Nat}
    (hepoch : epochOffset < 210000) (hperiod : periodOffset < 2016)
    (hfits : (periodOffset + 1260000 - epochOffset) % halvingIncrement = 0)
    (hheight : (cycleNumber * cycleEpochs + epochsOf epochOffset periodOffset) *
      subsidyHalvingInterval + epochOffset = height) :
    height / (cycleEpochs * subsidyHalvingInterval) = cycleNumber ∧
      height % subsidyHalvingInterval = epochOffset ∧ height % diffchangeInterval = periodOffset := by
  have hincrement : halvingIncrement = 336 := rfl
  simp only [hincrement, cycleEpochs, subsidyHalvingInterval, diffchangeInterval,
    epochsOf] at *
  omega

theorem toList_degreeText (d : Degree) :
    d.text.toList = (toString d.hour).toList ++ '°' :: ((toString d.minute).toList ++
      '′' :: ((toString d.second).toList ++ '″' :: ((toString d.third).toList ++ ['‴']))) := by
  simp only [Degree.text, String.toList_append, List.append_assoc]
  rfl

/-- The degree of a sat of a block. -/
def degreeAt (height offset : Nat) : Degree :=
  ⟨height / (cycleEpochs * subsidyHalvingInterval), height % subsidyHalvingInterval,
    height % diffchangeInterval, offset⟩

theorem degree_at {height offset : Nat} (h : offset < Height.subsidy height) :
    degree (Height.startingSat height + offset) = .ok (degreeAt height offset) := by
  obtain ⟨hheight, hthird⟩ := height_at h
  exact bind_eq_ok.mpr ⟨_, hheight, bind_eq_ok.mpr ⟨_, hthird, rfl⟩⟩

theorem fromDegree_text {height offset : Nat} (h : offset < Height.subsidy height) :
    fromDegree (degreeAt height offset).text = .ok (Height.startingSat height + offset) := by
  have hbound := height_lt_of_subsidy (Nat.zero_lt_of_lt h)
  have hoffset : offset < 2 ^ 64 :=
    Nat.lt_trans (Nat.lt_of_lt_of_le h (Height.subsidy_le height)) (by decide)
  have hinterval : subsidyHalvingInterval = 210000 := rfl
  have hdiffchange : diffchangeInterval = 2016 := rfl
  have hepoch : height % subsidyHalvingInterval < 210000 := by rw [hinterval]; omega
  have hperiod : height % diffchangeInterval < 2016 := by rw [hdiffchange]; omega
  have hcycle := Nat.div_le_self height (cycleEpochs * subsidyHalvingInterval)
  obtain ⟨hfits, hheight⟩ := epochsOf_height height
  have htext := toList_degreeText (degreeAt height offset)
  generalize (degreeAt height offset).text = text at htext
  unfold fromDegree
  rw [htext]
  refine bind_eq_ok.mpr ⟨_, splitField_toString (by decide) _ _ _ _, ?_⟩
  refine bind_eq_ok.mpr ⟨_, parseField_toString (by show height / _ < _; omega) _, ?_⟩
  refine bind_eq_ok.mpr ⟨_, splitField_toString (by decide) _ _ _ _, ?_⟩
  refine bind_eq_ok.mpr ⟨_, parseField_toString (by show height % _ < _; omega) _, ?_⟩
  rw [if_neg (by show ¬_ ≤ height % _; omega)]
  refine bind_eq_ok.mpr ⟨_, splitField_toString (by decide) _ _ _ _, ?_⟩
  refine bind_eq_ok.mpr ⟨_, parseField_toString (by show height % _ < _; omega) _, ?_⟩
  rw [if_neg (by show ¬_ ≤ height % _; omega)]
  refine bind_eq_ok.mpr ⟨height, (degreeHeight_eq_ok hepoch hperiod).mpr
    ⟨hfits, hheight, by omega⟩, ?_⟩
  have hblock : readBlockOffset text ((toString offset).toList ++ ['‴']) = .ok (offset, []) := by
    rw [readBlockOffset, splitOnce_append (not_mem_toString (by decide) offset)]
    exact bind_eq_ok.mpr ⟨_, parseField_toString hoffset text, rfl⟩
  refine bind_eq_ok.mpr ⟨_, hblock, ?_⟩
  dsimp only
  rw [if_neg (by simp), if_neg (Nat.not_le.mpr h)]
  exact sum_at h

theorem fromStr_degree {height offset : Nat} (h : offset < Height.subsidy height) :
    fromStr (degreeAt height offset).text = .ok (Height.startingSat height + offset) := by
  have htext := toList_degreeText (degreeAt height offset)
  have hlow : ∀ c ∈ (degreeAt height offset).text.toList, ¬('a' ≤ c ∧ c ≤ 'z') := by
    have hdigits : ∀ n : Nat, ∀ c ∈ (toString n).toList, ¬('a' ≤ c ∧ c ≤ 'z') :=
      fun n c hc => not_lower_of_isDigit (Decimal.isDigit_of_mem_toString hc)
    rw [htext]
    simp only [List.forall_mem_append, List.forall_mem_cons]
    exact ⟨hdigits _, by decide, hdigits _, by decide, hdigits _, by decide, hdigits _, by decide,
      by simp⟩
  rw [fromStr_of_not_name hlow, if_pos (by rw [htext]; simp), fromDegree_text h]

/-! ### Names -/

def IsLetter (c : Char) : Prop := 'a' ≤ c ∧ c ≤ 'z'

/-- The number that letters make of a number in front of them. -/
def nameValue (x : Nat) (text : List Char) : Nat :=
  text.foldl (fun x c => x * 26 + (c.toNat - 96)) x

theorem IsLetter.bounds {c : Char} (h : IsLetter c) : 97 ≤ c.toNat ∧ c.toNat ≤ 122 :=
  ⟨UInt32.le_iff_toNat_le.mp h.1, UInt32.le_iff_toNat_le.mp h.2⟩

theorem letter_at {k : Nat} (h : k < 26) :
    IsLetter (letters.getD k 'a') ∧ (letters.getD k 'a').toNat = 97 + k := by
  unfold IsLetter
  revert k
  decide

theorem letters_getD {c : Char} (h : IsLetter c) : letters.getD (c.toNat - 97) 'a' = c := by
  obtain ⟨hlow, hhigh⟩ := h.bounds
  have hat := (letter_at (by omega : c.toNat - 97 < 26)).2
  apply Char.toNat_inj.mp
  omega

theorem le_nameValue (x : Nat) (text : List Char) : x ≤ nameValue x text := by
  induction text generalizing x with
  | nil => exact Nat.le_refl x
  | cons c rest ih =>
    have hrest := ih (x * 26 + (c.toNat - 96))
    show x ≤ nameValue (x * 26 + (c.toNat - 96)) rest
    omega

theorem nameValue_concat (text : List Char) (c : Char) :
    nameValue 0 (text ++ [c]) = nameValue 0 text * 26 + (c.toNat - 96) := by
  simp [nameValue]

/-- A letter of a name, behind a number that is no sat beyond the supply: nothing overflows. -/
theorem readName_letter {input : String} {x : Nat} (hx : x ≤ supply) {c : Char} (hletter : IsLetter c)
    (rest : List Char) : readName input x (c :: rest) =
      if supply < x * 26 + (c.toNat - 96) then ErrorKind.nameRange.error input
      else readName input (x * 26 + (c.toNat - 96)) rest := by
  have hsupply : supply < 2 ^ 52 := by decide
  obtain ⟨hlow, hhigh⟩ := hletter.bounds
  have ha : 'a'.toNat = 97 := rfl
  have hmul : Checked.mul 64 x 26 = .ok (x * 26) := Checked.mul_of_lt (by omega)
  have hadd : Checked.add 64 (x * 26) c.toNat = .ok (x * 26 + c.toNat) :=
    Checked.add_of_lt (by omega)
  have hsub : Checked.sub (x * 26 + c.toNat) 'a'.toNat = .ok (x * 26 + c.toNat - 97) :=
    Checked.sub_of_le (by omega)
  have hnext : Checked.add 64 (x * 26 + c.toNat - 97) 1 = .ok (x * 26 + (c.toNat - 96)) := by
    rw [Checked.add_of_lt (by omega)]
    congr 1
    omega
  rw [readName, if_pos (show 'a' ≤ c ∧ c ≤ 'z' from hletter), hmul, ok_bind, hadd, ok_bind, hsub,
    ok_bind, hnext, ok_bind]

theorem readName_other (input : String) (x : Nat) {c : Char} (h : ¬IsLetter c) (rest : List Char) :
    readName input x (c :: rest) = ErrorKind.nameCharacter.error input := if_neg h

/-- The loop over a name reads exactly letters that stay below the supply. -/
theorem readName_eq_ok {input : String} {x n : Nat} (hx : x ≤ supply) {text : List Char} :
    readName input x text = .ok n ↔
      (∀ c ∈ text, IsLetter c) ∧ nameValue x text = n ∧ n ≤ supply := by
  induction text generalizing x with
  | nil =>
    constructor
    · intro h
      cases h
      exact ⟨by simp, rfl, hx⟩
    · rintro ⟨-, rfl, -⟩
      rfl
  | cons c rest ih =>
    rw [List.forall_mem_cons]
    by_cases hletter : IsLetter c
    · rw [readName_letter hx hletter]
      have hgrows := le_nameValue (x * 26 + (c.toNat - 96)) rest
      by_cases hrange : supply < x * 26 + (c.toNat - 96)
      · rw [if_pos hrange]
        constructor
        · exact fun h => nomatch h
        · rintro ⟨-, rfl, hn⟩
          change nameValue (x * 26 + (c.toNat - 96)) rest ≤ supply at hn
          omega
      · rw [if_neg hrange, ih (Nat.not_lt.mp hrange)]
        exact ⟨fun ⟨h, hn⟩ => ⟨⟨hletter, h⟩, hn⟩, fun ⟨⟨_, h⟩, hn⟩ => ⟨h, hn⟩⟩
    · rw [readName_other input x hletter]
      constructor
      · exact fun h => nomatch h
      · exact fun h => absurd h.1.1 hletter

/-- The letters of a number make it up again. -/
theorem nameValue_nameFrom {fuel x : Nat} (h : x ≤ fuel) :
    (∀ c ∈ nameFrom fuel x, IsLetter c) ∧ nameValue 0 (nameFrom fuel x).reverse = x := by
  induction fuel generalizing x with
  | zero =>
    obtain rfl : x = 0 := Nat.le_zero.mp h
    exact ⟨by simp [nameFrom], rfl⟩
  | succ fuel ih =>
    rw [nameFrom]
    split
    · rename_i hzero
      exact ⟨by simp, hzero.symm⟩
    · obtain ⟨hletters, hvalue⟩ := ih (by omega : (x - 1) / 26 ≤ fuel)
      obtain ⟨hletter, hat⟩ := letter_at (Nat.mod_lt (x - 1) (by decide : 0 < 26))
      refine ⟨List.forall_mem_cons.mpr ⟨hletter, hletters⟩, ?_⟩
      rw [List.reverse_cons, nameValue_concat, hvalue, hat]
      omega

/-- Letters are those of the number that they make. -/
theorem nameFrom_nameValue {fuel : Nat} {text : List Char} (h : ∀ c ∈ text, IsLetter c)
    (hfuel : nameValue 0 text ≤ fuel) : nameFrom fuel (nameValue 0 text) = text.reverse := by
  induction text using List.reverseRecOn generalizing fuel with
  | nil =>
    cases fuel with
    | zero => rfl
    | succ fuel => exact if_pos rfl
  | append_singleton text c ih =>
    have hletter := h c (by simp)
    obtain ⟨hlow, hhigh⟩ := hletter.bounds
    rw [nameValue_concat] at hfuel ⊢
    obtain ⟨fuel, rfl⟩ : ∃ f, fuel = f + 1 := ⟨fuel - 1, by omega⟩
    have hmod : (nameValue 0 text * 26 + (c.toNat - 96) - 1) % 26 = c.toNat - 97 := by omega
    have hdiv : (nameValue 0 text * 26 + (c.toNat - 96) - 1) / 26 = nameValue 0 text := by omega
    rw [nameFrom, if_neg (by omega), hmod, hdiv, letters_getD hletter,
      ih (fun d hd => h d (List.mem_append_left _ hd)) (by omega), List.reverse_concat]

theorem name_eq {sat : Nat} (h : sat ≤ supply) :
    name sat = .ok (String.ofList (nameFrom (supply - sat) (supply - sat)).reverse) :=
  bind_eq_ok.mpr ⟨_, Checked.sub_of_le h, rfl⟩

theorem fromStr_name {sat : Nat} (h : sat < supply) :
    ∃ text, name sat = .ok text ∧ fromStr text = .ok sat := by
  refine ⟨_, name_eq h.le, ?_⟩
  obtain ⟨hletters, hvalue⟩ := nameValue_nameFrom (Nat.le_refl (supply - sat))
  have hne : nameFrom (supply - sat) (supply - sat) ≠ [] := by
    intro hnil
    rw [hnil] at hvalue
    have hzero : supply - sat = 0 := hvalue.symm
    omega
  have hreversed : ∀ c ∈ (nameFrom (supply - sat) (supply - sat)).reverse, IsLetter c :=
    fun c hc => hletters c (List.mem_reverse.mp hc)
  obtain ⟨c, hc⟩ := List.exists_mem_of_ne_nil _ (List.reverse_eq_nil_iff.not.mpr hne)
  have hname : ((String.ofList (nameFrom (supply - sat) (supply - sat)).reverse).toList.any
      fun c => 'a' ≤ c && c ≤ 'z') = true := by
    rw [String.toList_ofList, List.any_eq_true]
    exact ⟨c, hc, by simpa [IsLetter] using hreversed c hc⟩
  rw [fromStr, if_pos hname, fromName, String.toList_ofList]
  refine bind_eq_ok.mpr ⟨supply - sat, ?_, ?_⟩
  · exact (readName_eq_ok (Nat.zero_le _)).mpr ⟨hreversed, hvalue, Nat.sub_le _ _⟩
  · rw [Checked.sub_of_le (Nat.sub_le _ _)]
    congr 1
    omega

/-! ### Every notation -/

/-- Every sat that is ever mined is found again from its integer, decimal, degree and name, no two
have one degree, and heights and offsets invert the starts of the blocks. -/
theorem notations_parse (sat : Nat) (h : sat < supply) :
    fromStr (toString sat) = .ok sat ∧
    (∃ text, decimal sat = .ok text ∧ fromStr text.text = .ok sat) ∧
    (∃ text, degree sat = .ok text ∧ fromStr text.text = .ok sat) ∧
    (∃ text, name sat = .ok text ∧ fromStr text = .ok sat) ∧
    (∀ other < supply, degree sat = degree other → sat = other) ∧
    ∀ block offset, offset < Height.subsidy block →
      startingSat block = .ok (Height.startingSat block) ∧
      height (Height.startingSat block + offset) = .ok block ∧
      third (Height.startingSat block + offset) = .ok offset := by
  have hdegree : ∀ sat < supply, ∃ text, degree sat = .ok text ∧ fromStr text.text = .ok sat := by
    intro sat hsat
    obtain ⟨block, offset, hoffset, rfl⟩ := exists_block hsat
    exact ⟨_, degree_at hoffset, fromStr_degree hoffset⟩
  refine ⟨fromStr_integer h, ?_, hdegree sat h, fromStr_name h, ?_, ?_⟩
  · obtain ⟨block, offset, hoffset, rfl⟩ := exists_block h
    obtain ⟨hheight, hthird⟩ := height_at hoffset
    exact ⟨_, bind_eq_ok.mpr ⟨_, hheight, bind_eq_ok.mpr ⟨_, hthird, rfl⟩⟩, fromStr_decimal hoffset⟩
  · intro other hother hsame
    obtain ⟨text, htext, hparse⟩ := hdegree sat h
    obtain ⟨text', htext', hparse'⟩ := hdegree other hother
    obtain rfl : text = text' := Except.ok.inj (htext.symm.trans (hsame.trans htext'))
    exact Except.ok.inj (hparse.symm.trans hparse')
  · intro block offset hoffset
    have hbound := height_lt_of_subsidy (Nat.zero_lt_of_lt hoffset)
    exact ⟨startingSat_eq (by omega), height_at hoffset⟩

/-- A sat of the last epoch. -/
theorem notations_parse_last :
    ∃ text, degree 2099999997480001 = .ok text ∧ fromStr text.text = .ok 2099999997480001 :=
  (notations_parse 2099999997480001 (by decide)).2.2.1

end Lord.Ordinals.Notation
