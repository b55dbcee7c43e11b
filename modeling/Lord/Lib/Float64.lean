import Mathlib.Algebra.Order.Ring.Nat
import Mathlib.Data.List.Basic
import Mathlib.Data.Nat.Log

/-! Floating point numbers in decimal text and how `from_str` reads them, how they are rounded to whole
numbers and how they are cast to `u64`.  The numbers and their arithmetic are those of `Float`. -/

namespace Lord.Float64

/-! ### The text -/

inductive ParseFloatError where
  | empty
  | invalid
  deriving Repr, DecidableEq

def ParseFloatError.text : ParseFloatError → String
  | empty => "cannot parse float from empty string"
  | invalid => "invalid float literal"

/-- Whether there is a minus sign, and what follows the sign. -/
def readSign : List Char → Bool × List Char
  | '-' :: rest => (true, rest)
  | '+' :: rest => (false, rest)
  | rest => (false, rest)

/-- The exponent of ten at the end of a number, which may be left out. -/
def readExponent : List Char → Option Int
  | [] => some 0
  | c :: rest =>
    let (negative, digits) := readSign rest
    if c.toLower = 'e' ∧ digits ≠ [] ∧ digits.all Char.isDigit then
      let value : Int := Nat.ofDigitChars 10 digits 0
      some (if negative then -value else value)
    else
      none

/-- The digits of a number and the power of ten that they are multiplied with: digits with a point
among them or not, and an exponent. -/
def readNumber (text : List Char) : Option (Nat × Int) :=
  let whole := text.takeWhile Char.isDigit
  let rest := text.dropWhile Char.isDigit
  let point := rest.head? = some '.'
  let fraction := if point then rest.tail.takeWhile Char.isDigit else []
  let rest := if point then rest.tail.dropWhile Char.isDigit else rest
  if whole ++ fraction = [] then
    none
  else
    (readExponent rest).map fun exponent =>
      (Nat.ofDigitChars 10 (whole ++ fraction) 0, exponent - fraction.length)

/-- The nearest number to these digits times this power of ten. -/
def ofDigits (digits : Nat) (exponent : Int) : Float :=
  Float.ofScientific digits (exponent < 0) exponent.natAbs

/-- A number without its sign. -/
def readMagnitude (text : List Char) : Option Float :=
  let lower := text.map Char.toLower
  if lower = "inf".toList ∨ lower = "infinity".toList then some (1 / 0)
  else if lower = "nan".toList then some (0 / 0)
  else (readNumber text).map fun number => ofDigits number.1 number.2

/-- `from_str` of an `f64`. -/
def parse (text : List Char) : Except ParseFloatError Float :=
  if text = [] then
    .error .empty
  else
    let (negative, magnitude) := readSign text
    match readMagnitude magnitude with
    | some x => .ok (if negative then -x else x)
    | none => .error .invalid

/-! ### Whole numbers -/

/-- `round` of an `f64`, halves away from zero.  Zeros and the numbers from two to the 52 on are whole
already. -/
def round (x : Float) : Float :=
  if 0 < x.abs ∧ x.abs < 4503599627370496 then
    let whole := x.abs.toUInt64
    let rounded := if x.abs - whole.toFloat < 0.5 then whole.toFloat else (whole + 1).toFloat
    if x < 0 then -rounded else rounded
  else
    x

open Float.Model UnpackedFloat

/-- The whole part of a mantissa times a power of two. -/
def truncate (mantissa : Nat) (exponent : Int) : Nat :=
  mantissa * 2 ^ exponent.toNat / 2 ^ (-exponent).toNat

theorem mantissa_shiftRight (em : ExtendedMantissa) (k : Nat) :
    (em >>> k).mantissa = em.mantissa / 2 ^ k := by
  change (Nat.repeat ExtendedMantissa.shiftRightOne k em).mantissa = _
  induction k with
  | zero => simp [Nat.repeat]
  | succ k ih =>
    change (Nat.repeat ExtendedMantissa.shiftRightOne k em).mantissa / 2 = _
    rw [ih, Nat.div_div_eq_div_mul, Nat.pow_succ]

theorem roundToInt_eq (sign : Sign) (mantissa : Nat) (exponent : Int) :
    roundToInt sign mantissa exponent = sign.apply (truncate mantissa exponent) := by
  have hshift : (0 - (exponent - (exponent.toNat : Int))).toNat = (-exponent).toNat := by omega
  simp only [roundToInt, decreaseExponent, shiftToExponent, mantissa_shiftRight, Int.sub_zero,
    ExtendedMantissa.ofMantissaAndAccuracy, Nat.shiftLeft_eq, truncate, hshift]

theorem truncate_le_truncate {m n : Nat} (h : m ≤ n) (exponent : Int) :
    truncate m exponent ≤ truncate n exponent :=
  Nat.div_le_div_right (Nat.mul_le_mul_right _ h)

theorem truncate_double (mantissa : Nat) (exponent : Int) :
    truncate (2 * mantissa) exponent = truncate mantissa (exponent + 1) := by
  unfold truncate
  rcases Int.lt_or_le exponent 0 with h | h
  · have hpow : (-exponent).toNat = (-(exponent + 1)).toNat + 1 := by omega
    rw [hpow, Nat.pow_succ', show exponent.toNat = 0 by omega, show (exponent + 1).toNat = 0 by omega,
      Nat.pow_zero, Nat.mul_one, Nat.mul_one, Nat.mul_div_mul_left _ _ (by decide)]
  · rw [show (exponent + 1).toNat = exponent.toNat + 1 by omega, Nat.pow_succ',
      show (-exponent).toNat = 0 by omega, show (-(exponent + 1)).toNat = 0 by omega]
    rw [Nat.mul_comm 2, Nat.mul_assoc]

theorem truncate_mono (mantissa : Nat) {e f : Int} (h : e ≤ f) :
    truncate mantissa e ≤ truncate mantissa f := by
  refine monotone_int_of_le_succ (fun exponent => ?_) h
  rw [← truncate_double]
  exact truncate_le_truncate (by omega) exponent

/-- The mantissa has at most 53 bits, and exactly 53 above the least exponent. -/
def Fits : UnpackedFloat → Prop
  | .finite _ mantissa exponent _ =>
    mantissa < 2 ^ 53 ∧ -1074 ≤ exponent ∧ (-1074 < exponent → 2 ^ 52 ≤ mantissa)
  | _ => True

theorem fits_unpack (x : Float) : Fits x.toModel.unpack := by
  have hbias : (Format.binary64.exponentBias : Int) = 1023 := rfl
  have hmantissa : (@unpackMantissa Format.binary64 x.toModel.toBits.toBitVec).toNat < 2 ^ 52 :=
    BitVec.isLt _
  delta Float.Model.unpack UnpackedFloat.unpack
  dsimp only
  by_cases htop : @unpackExponent Format.binary64 x.toModel.toBits.toBitVec = -1#_
  · rw [if_pos htop]
    by_cases hzero : @unpackMantissa Format.binary64 x.toModel.toBits.toBitVec = 0#_
    · rw [if_pos hzero]
      trivial
    · rw [if_neg hzero]
      trivial
  rw [if_neg htop]
  by_cases hlow : @unpackExponent Format.binary64 x.toModel.toBits.toBitVec = 0#_
  · rw [if_pos hlow, hlow]
    by_cases hzero : @unpackMantissa Format.binary64 x.toModel.toBits.toBitVec = 0#_
    · rw [dif_pos hzero]
      trivial
    · rw [dif_neg hzero]
      exact ⟨by omega, by decide, fun habove => absurd habove (by decide)⟩
  · rw [if_neg hlow]
    have hpos := Nat.pos_of_ne_zero (mt (fun h => BitVec.eq_of_toNat_eq h) hlow)
    have hone : (1#1 ++ @unpackMantissa Format.binary64 x.toModel.toBits.toBitVec).toNat =
        2 ^ 52 + (@unpackMantissa Format.binary64 x.toModel.toBits.toBitVec).toNat := by
      rw [BitVec.toNat_append, ← Nat.shiftLeft_add_eq_or_of_lt (BitVec.isLt _)]
      rfl
    show _ ∧ _ ∧ _
    rw [hone, hbias]
    exact ⟨by omega, by omega, fun _ => Nat.le_add_right _ _⟩

theorem lt_iff {x y : Float} : x < y ↔ x.toModel.unpack.lt y.toModel.unpack = true :=
  decide_eq_true_iff

/-- A smaller exponent, or the same one with a mantissa that is not larger, gives no larger whole
part. -/
theorem truncate_le_of_lex {sign sign' : Sign} {m n : Nat} {e f : Int} {hm : 0 < m} {hn : 0 < n}
    (hleft : Fits (.finite sign m e hm)) (hright : Fits (.finite sign' n f hn))
    (hle : e < f ∨ e = f ∧ m ≤ n) : truncate m e ≤ truncate n f := by
  obtain ⟨hm, he, -⟩ := hleft
  obtain ⟨-, -, hn⟩ := hright
  rcases hle with hlt | ⟨rfl, hle⟩
  · have hdouble : m ≤ 2 * n := by
      have := hn (by omega)
      omega
    calc truncate m e ≤ truncate (2 * n) e := truncate_le_truncate hdouble e
      _ = truncate n (e + 1) := truncate_double n e
      _ ≤ truncate n f := truncate_mono n hlt
  · exact truncate_le_truncate hle e

theorem toNat_toUInt64 (x : Float) :
    x.toUInt64.toNat = min (x.toModel.unpack.toInt 0 (2 ^ 64 - 1)).toNat (2 ^ 64 - 1) := by
  change (UInt64.ofNatClamp _).toNat = _
  unfold UInt64.ofNatClamp
  split
  · rename_i hlt
    exact (Nat.min_eq_left (Nat.le_sub_one_of_lt hlt)).symm
  · rename_i hge
    exact (Nat.min_eq_right (Nat.le_trans (Nat.sub_le _ _) (Nat.le_of_not_lt hge))).symm

/-- Of two positive numbers, the one that is not above the other has the smaller exponent, or the same
one and a mantissa that is not larger. -/
theorem lex_of_not_lt {m n : Nat} {e f : Int} {hm : 0 < m} {hn : 0 < n}
    (h : ¬UnpackedFloat.lt (.finite .positive n f hn) (.finite .positive m e hm) = true) :
    e < f ∨ e = f ∧ m ≤ n := by
  have hcompare : ¬(some ((compare f e).then (compare n m)) == some Ordering.lt) = true := h
  simp only [beq_iff_eq, Option.some.injEq, Ordering.then_eq_lt, compare_lt_iff_lt,
    compare_eq_iff_eq] at hcompare
  omega

/-- The whole part of a number that is not above another one. -/
theorem toNat_toInt_le {u v : UnpackedFloat} (hu : Fits u) (hv : Fits v) (hnan : v.isNaN = false)
    (h : ¬v.lt u = true) (top : Int) :
    v = .infinity .positive ∨ (u.toInt 0 top).toNat ≤ (v.toInt 0 top).toNat := by
  cases u with
  | notANumber => exact .inr (Nat.zero_le _)
  | zero sign => exact .inr (Nat.zero_le _)
  | infinity sign =>
    cases sign with
    | negative => exact .inr (Nat.zero_le _)
    | positive =>
      cases v with
      | notANumber => cases hnan
      | infinity sign => cases sign <;> first | exact .inl rfl | exact absurd rfl h
      | zero sign => exact absurd rfl h
      | finite sign n f hn => cases sign <;> exact absurd rfl h
  | finite sign m e hm =>
    cases sign with
    | negative =>
      right
      change (roundToInt .negative m e).toNat ≤ _
      rw [roundToInt_eq, Sign.apply, Int.toNat_neg_natCast]
      exact Nat.zero_le _
    | positive =>
      cases v with
      | notANumber => cases hnan
      | infinity sign => cases sign <;> first | exact .inl rfl | exact absurd rfl h
      | zero sign => exact absurd rfl h
      | finite sign n f hn =>
        cases sign with
        | negative => exact absurd rfl h
        | positive =>
          right
          have hle := truncate_le_of_lex hu hv (lex_of_not_lt h)
          change (roundToInt .positive m e).toNat ≤ (roundToInt .positive n f).toNat
          rwa [roundToInt_eq, roundToInt_eq, Sign.apply, Sign.apply, Int.toNat_natCast,
            Int.toNat_natCast]

/-- A number that is not above another one is cast to a whole number that is not above its. -/
theorem toUInt64_le {x y : Float} (hnan : y.isNaN = false) (h : ¬y < x) :
    x.toUInt64.toNat ≤ y.toUInt64.toNat := by
  rw [lt_iff] at h
  rw [toNat_toUInt64, toNat_toUInt64]
  rcases toNat_toInt_le (fits_unpack x) (fits_unpack y) hnan h (2 ^ 64 - 1) with htop | hle
  · rw [htop]
    exact Nat.min_le_right _ _
  · exact Nat.le_min.mpr ⟨Nat.le_trans (Nat.min_le_left _ _) hle, Nat.min_le_right _ _⟩

end Lord.Float64
