import Mathlib.Algebra.Group.Nat.Defs
import Mathlib.Data.Nat.Notation
import Mathlib.Data.List.Basic

/-! Unsigned numbers in decimal text, and how `from_str` reads them. -/

namespace Lord.Decimal

inductive ParseIntError where
  | empty
  | invalidDigit
  | posOverflow
  deriving Repr, DecidableEq

def ParseIntError.text : ParseIntError → String
  | empty => "cannot parse integer from empty string"
  | invalidDigit => "invalid digit found in string"
  | posOverflow => "number too large to fit in target type"

/-- The loop over the digits of a number of this width. -/
def readDigits (bits value : Nat) : List Char → Except ParseIntError Nat
  | [] => .ok value
  | c :: rest =>
    if !c.isDigit then
      .error .invalidDigit
    else if 10 * value + (c.toNat - '0'.toNat) < 2 ^ bits then
      readDigits bits (10 * value + (c.toNat - '0'.toNat)) rest
    else
      .error .posOverflow

/-- `from_str` of an unsigned integer: digits, behind a plus sign if there is one. -/
def parse (bits : Nat) : List Char → Except ParseIntError Nat
  | [] => .error .empty
  | ['+'] => .error .invalidDigit
  | '+' :: digits => readDigits bits 0 digits
  | digits => readDigits bits 0 digits

/-- The text writes the number, leading zeros and a plus sign allowed. -/
def Numeral (text : List Char) (n : Nat) : Prop :=
  ∃ digits : List Char, (text = digits ∨ text = '+' :: digits) ∧ digits ≠ [] ∧
    (∀ c ∈ digits, c.isDigit = true) ∧ Nat.ofDigitChars 10 digits 0 = n

theorem le_ofDigitChars (digits : List Char) (value : Nat) :
    value ≤ Nat.ofDigitChars 10 digits value := by
  induction digits generalizing value with
  | nil => exact Nat.le_refl _
  | cons c rest ih =>
    rw [Nat.ofDigitChars_cons]
    have hrest := ih (10 * value + (c.toNat - '0'.toNat))
    omega

theorem readDigits_eq_ok {bits value n : Nat} (hvalue : value < 2 ^ bits) {digits : List Char} :
    readDigits bits value digits = .ok n ↔
      (∀ c ∈ digits, c.isDigit = true) ∧ Nat.ofDigitChars 10 digits value = n ∧ n < 2 ^ bits := by
  induction digits generalizing value with
  | nil =>
    rw [readDigits, Nat.ofDigitChars_nil]
    constructor
    · intro h
      cases h
      exact ⟨by simp, rfl, hvalue⟩
    · rintro ⟨-, rfl, -⟩
      rfl
  | cons c rest ih =>
    rw [readDigits, Nat.ofDigitChars_cons, List.forall_mem_cons]
    cases hdigit : c.isDigit with
    | false => simp
    | true =>
      have hgrows := le_ofDigitChars rest (10 * value + (c.toNat - '0'.toNat))
      simp only [Bool.not_true, Bool.false_eq_true, if_false, true_and]
      by_cases hfits : 10 * value + (c.toNat - '0'.toNat) < 2 ^ bits
      · rw [if_pos hfits]
        exact ih hfits
      · rw [if_neg hfits]
        constructor
        · exact fun h => nomatch h
        · rintro ⟨-, rfl, hn⟩
          omega

/-- A number is read exactly from the texts that write it. -/
theorem parse_eq_ok {bits n : Nat} {text : List Char} :
    parse bits text = .ok n ↔ Numeral text n ∧ n < 2 ^ bits := by
  have hzero : 0 < 2 ^ bits := Nat.two_pow_pos bits
  unfold parse
  split
  · constructor
    · exact fun h => nomatch h
    · rintro ⟨⟨digits, rfl | h, hne, -⟩, -⟩
      · exact absurd rfl hne
      · cases h
  · constructor
    · exact fun h => nomatch h
    · rintro ⟨⟨digits, rfl | h, hne, hdigits, -⟩, -⟩
      · exact absurd (hdigits '+' (by simp)) (by decide)
      · cases h
        exact absurd rfl hne
  · rename_i digits hne
    rw [readDigits_eq_ok hzero]
    constructor
    · rintro ⟨hdigits, hvalue, hn⟩
      exact ⟨⟨digits, .inr rfl, fun hnil => hne (by rw [hnil]), hdigits, hvalue⟩, hn⟩
    · rintro ⟨⟨digits', rfl | h, -, hdigits, hvalue⟩, hn⟩
      · exact absurd (hdigits '+' (by simp)) (by decide)
      · cases h
        exact ⟨hdigits, hvalue, hn⟩
  · rename_i hempty hplus hsigned
    rw [readDigits_eq_ok hzero]
    constructor
    · rintro ⟨hdigits, hvalue, hn⟩
      exact ⟨⟨text, .inl rfl, fun hnil => hempty hnil, hdigits, hvalue⟩, hn⟩
    · rintro ⟨⟨digits', rfl | rfl, -, hdigits, hvalue⟩, hn⟩
      · exact ⟨hdigits, hvalue, hn⟩
      · exact absurd rfl (hsigned digits')

theorem numeral_toString (n : Nat) : Numeral (toString n).toList n := by
  refine ⟨Nat.toDigits 10 n, .inl ?_, Nat.toDigits_ne_nil, ?_, Nat.ofDigitChars_ten_toDigits⟩
  · rw [Nat.toString_eq_ofList_toDigits, String.toList_ofList]
  · exact fun c hc => Nat.isDigit_of_mem_toDigits (by decide) (by decide) hc

/-- A number that fits is read from its own text. -/
theorem parse_toString {bits n : Nat} (h : n < 2 ^ bits) : parse bits (toString n).toList = .ok n :=
  parse_eq_ok.mpr ⟨numeral_toString n, h⟩

theorem isDigit_of_mem_toString {n : Nat} {c : Char} (h : c ∈ (toString n).toList) :
    c.isDigit = true := by
  rw [Nat.toString_eq_ofList_toDigits, String.toList_ofList] at h
  exact Nat.isDigit_of_mem_toDigits (by decide) (by decide) h

end Lord.Decimal
