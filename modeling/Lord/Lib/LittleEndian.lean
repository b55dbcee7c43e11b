import Lord.Lib.Bytes

/-! Fixed-width little-endian integers. -/

namespace Lord.LittleEndian

/-- The lowest `width` base-256 digits of `value`, least first. -/
def encode : Nat → Nat → Bytes
  | 0, _ => []
  | width + 1, value => UInt8.ofNat value :: encode width (value / 256)

/-- The number whose base-256 digits, least first, are `bytes`. -/
def decode : Bytes → Nat
  | [] => 0
  | byte :: rest => byte.toNat + 256 * decode rest

@[simp] theorem length_encode (width value : Nat) : (encode width value).length = width := by
  induction width generalizing value with
  | zero => rfl
  | succ width ih => simp [encode, ih]

theorem decode_encode_mod (width value : Nat) :
    decode (encode width value) = value % 256 ^ width := by
  induction width generalizing value with
  | zero => simp [encode, decode, Nat.mod_one]
  | succ width ih =>
    have hbyte : (UInt8.ofNat value).toNat = value % 256 := by simp
    rw [encode, decode, ih, hbyte, pow_succ', Nat.mod_mul]

/-- A value that fits its width reads back as itself. -/
theorem decode_encode {width value : Nat} (h : value < 256 ^ width) :
    decode (encode width value) = value := by
  rw [decode_encode_mod, Nat.mod_eq_of_lt h]

theorem take_encode {count width : Nat} (h : count ≤ width) (value : Nat) :
    (encode width value).take count = encode count value := by
  induction count generalizing width value with
  | zero => rfl
  | succ count ih =>
    obtain ⟨width, rfl⟩ : ∃ w, width = w + 1 := ⟨width - 1, by omega⟩
    rw [encode, encode, List.take_succ_cons, ih (by omega)]

theorem drop_encode (count width value : Nat) :
    (encode width value).drop count = encode (width - count) (value / 256 ^ count) := by
  induction count generalizing width value with
  | zero => simp
  | succ count ih =>
    cases width with
    | zero => simp [encode]
    | succ width =>
      rw [encode, List.drop_succ_cons, ih, Nat.add_sub_add_right, Nat.div_div_eq_div_mul, pow_succ']

end Lord.LittleEndian
