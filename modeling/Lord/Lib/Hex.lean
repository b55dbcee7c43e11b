import Lord.Lib.Utf8
import Mathlib.Tactic.IntervalCases

/-! Hexadecimal text: lowercase digits on writing, either case on reading. -/

namespace Lord.Hex

/-- The lowercase hexadecimal digit of a number below 16. -/
def digit (n : Nat) : Char :=
  if n < 10 then Char.ofNat (48 + n) else Char.ofNat (87 + n)

/-- The number that a hexadecimal digit stands for. -/
def digitValue (c : Char) : Option Nat :=
  if 48 ≤ c.toNat ∧ c.toNat ≤ 57 then some (c.toNat - 48)
  else if 97 ≤ c.toNat ∧ c.toNat ≤ 102 then some (c.toNat - 87)
  else if 65 ≤ c.toNat ∧ c.toNat ≤ 70 then some (c.toNat - 55)
  else none

def digits (bytes : Bytes) : List Char :=
  bytes.flatMap fun byte => [digit (byte.toNat / 16), digit (byte.toNat % 16)]

/-- Two lowercase digits for each byte. -/
def encode (bytes : Bytes) : String := String.ofList (digits bytes)

/-- The bytes that pairs of digits stand for. -/
def ofDigits : List Char → Option Bytes
  | [] => some []
  | [_] => none
  | high :: low :: rest =>
    match digitValue high, digitValue low, ofDigits rest with
    | some h, some l, some bytes => some (UInt8.ofNat (16 * h + l) :: bytes)
    | _, _, _ => none

/-- Reads text of even length that has only digits. -/
def decode (text : String) : Option Bytes := ofDigits text.toList

theorem digitValue_digit (n : Nat) (h : n < 16) : digitValue (digit n) = some n := by
  interval_cases n <;> rfl

theorem ofDigits_digits (bytes : Bytes) : ofDigits (digits bytes) = some bytes := by
  induction bytes with
  | nil => rfl
  | cons byte rest ih =>
    have hbyte := byte.toNat_lt
    have hsplit : 16 * (byte.toNat / 16) + byte.toNat % 16 = byte.toNat := by omega
    show ofDigits (digit (byte.toNat / 16) :: digit (byte.toNat % 16) :: digits rest) = _
    simp only [ofDigits, digitValue_digit _ (show byte.toNat / 16 < 16 by omega),
      digitValue_digit _ (show byte.toNat % 16 < 16 by omega), ih, hsplit, UInt8.ofNat_toNat]

/-- Bytes written as text read back as themselves. -/
@[simp] theorem decode_encode (bytes : Bytes) : decode (encode bytes) = some bytes := by
  rw [decode, encode, String.toList_ofList, ofDigits_digits]

theorem encode_injective {a b : Bytes} (h : encode a = encode b) : a = b := by
  have hab := congrArg decode h
  simpa using hab

/-- Text that reads as bytes has two digits for each. -/
theorem ofDigits_some {chars : List Char} {bytes : Bytes} (h : ofDigits chars = some bytes) :
    chars.length = 2 * bytes.length ∧ ∀ c ∈ chars, (digitValue c).isSome = true := by
  induction chars using ofDigits.induct generalizing bytes with
  | case1 =>
    cases h
    simp
  | case2 => cases h
  | case3 high low rest tail hv lv htail hhigh hlow ih =>
    rw [ofDigits, hhigh, hlow, htail] at h
    cases h
    obtain ⟨hlen, hall⟩ := ih htail
    refine ⟨by simp only [List.length_cons, hlen]; omega, ?_⟩
    simpa [hhigh, hlow] using hall
  | case4 high low rest hnone ih =>
    simp only [ofDigits] at h
    cases h

theorem toNat_lt_of_digitValue {c : Char} (h : (digitValue c).isSome = true) : c.toNat < 128 := by
  unfold digitValue at h
  split at h
  · omega
  split at h
  · omega
  split at h
  · omega
  · cases h

/-! ### Why text does not read -/

inductive FromHexError where
  | invalidHexCharacter (c : Char) (index : Nat)
  | oddLength
  deriving Repr, DecidableEq

/-- A character of one byte as `{:?}` writes it. -/
def debugChar (c : Char) : String :=
  let escape : String :=
    if c = '\x00' then "\\0"
    else if c = '\t' then "\\t"
    else if c = '\r' then "\\r"
    else if c = '\n' then "\\n"
    else if c = '\'' then "\\'"
    else if c = '\\' then "\\\\"
    else if c.toNat < 32 ∨ (127 ≤ c.toNat ∧ c.toNat ≤ 160) ∨ c.toNat = 173 then
      "\\u\x7b" ++ String.ofList (Nat.toDigits 16 c.toNat) ++ "\x7d"
    else String.singleton c
  "'" ++ escape ++ "'"

def FromHexError.text : FromHexError → String
  | .invalidHexCharacter c index => s!"Invalid character {debugChar c} at position {index}"
  | .oddLength => "Odd number of digits"

/-- What is wrong with text that does not read: its length in bytes, or else its first byte that is not a
digit. -/
def fault (text : List Char) : FromHexError :=
  let bytes := (Utf8.encode (String.ofList text)).map fun byte => Char.ofNat byte.toNat
  if bytes.length % 2 = 1 then .oddLength
  else
    let index := bytes.findIdx fun c => (digitValue c).isNone
    .invalidHexCharacter (bytes.getD index '0') index

/-- `hex::decode`. -/
def fromHex (text : List Char) : Except FromHexError Bytes :=
  match ofDigits text with
  | some bytes => .ok bytes
  | none => .error (fault text)

theorem fromHex_eq_ok {text : List Char} {bytes : Bytes} :
    fromHex text = .ok bytes ↔ ofDigits text = some bytes := by
  unfold fromHex
  split <;> simp_all

/-- Text that reads has no other character than digits. -/
theorem not_mem_of_fromHex {text : List Char} {bytes : Bytes} {c : Char}
    (h : fromHex text = .ok bytes) (hc : digitValue c = none) : c ∉ text := by
  intro hmem
  have hdigit := (ofDigits_some (fromHex_eq_ok.mp h)).2 c hmem
  rw [hc] at hdigit
  cases hdigit

end Lord.Hex
