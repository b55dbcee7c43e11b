import Lord.Lib.Bytes
import Mathlib.Algebra.BigOperators.Intervals
import Mathlib.Algebra.BigOperators.Ring.Finset
import Mathlib.Data.Nat.Digits.Defs

/-! Variable-length integers: seven bits in each byte, lowest first, and a high bit on every byte
but the last. -/

namespace Lord.Varint

/-- The digits of `value`, at most `fuel` of them behind the first. -/
def encodeFuel : Nat → Nat → Bytes
  | 0, value => [UInt8.ofNat value]
  | fuel + 1, value =>
    if value < 128 then
      [UInt8.ofNat value]
    else
      UInt8.ofNat (value % 128 + 128) :: encodeFuel fuel (value / 128)

def encode (value : Nat) : Bytes := encodeFuel value value

/-- The number in front of the bytes, and the bytes after it. -/
def decode : Bytes → Option (Nat × Bytes)
  | [] => none
  | byte :: rest =>
    if byte.toNat < 128 then
      some (byte.toNat, rest)
    else
      match decode rest with
      | some (value, rest) => some (byte.toNat - 128 + 128 * value, rest)
      | none => none

theorem decode_encodeFuel {fuel value : Nat} (h : value ≤ fuel) (rest : Bytes) :
    decode (encodeFuel fuel value ++ rest) = some (value, rest) := by
  induction fuel generalizing value with
  | zero =>
    obtain rfl : value = 0 := by omega
    simp [encodeFuel, decode]
  | succ fuel ih =>
    unfold encodeFuel
    split
    · rename_i hsmall
      have hbyte : (UInt8.ofNat value).toNat = value := by
        rw [UInt8.toNat_ofNat']
        omega
      simp [decode, hbyte, hsmall]
    · rename_i hlarge
      have hbyte : (UInt8.ofNat (value % 128 + 128)).toNat = value % 128 + 128 := by
        rw [UInt8.toNat_ofNat']
        omega
      have hrest : decode (encodeFuel fuel (value / 128) ++ rest) = some (value / 128, rest) :=
        ih (by omega)
      have hnot : ¬value % 128 + 128 < 128 := by omega
      simp only [List.cons_append, decode, hbyte, hnot, if_false, hrest, Option.some.injEq,
        Prod.mk.injEq, and_true]
      omega

/-- A number reads back as itself, in front of any bytes. -/
@[simp] theorem decode_encode (value : Nat) (rest : Bytes) :
    decode (encode value ++ rest) = some (value, rest) :=
  decode_encodeFuel (Nat.le_refl value) rest

/-! ### One round of the writer -/

/-- Fuel beyond the value makes no difference. -/
theorem encodeFuel_congr {fuel fuel' value : Nat} (h : value ≤ fuel) (h' : value ≤ fuel') :
    encodeFuel fuel value = encodeFuel fuel' value := by
  induction fuel generalizing fuel' value with
  | zero =>
    obtain rfl : value = 0 := by omega
    cases fuel' <;> rfl
  | succ fuel ih =>
    cases fuel' with
    | zero =>
      obtain rfl : value = 0 := by omega
      rfl
    | succ fuel' =>
      rw [encodeFuel, encodeFuel]
      split
      · rfl
      · have hless : value / 128 ≤ fuel := by omega
        have hless' : value / 128 ≤ fuel' := by omega
        rw [ih hless hless']

theorem encode_of_lt {value : Nat} (h : value < 128) : encode value = [UInt8.ofNat value] := by
  unfold encode
  cases value with
  | zero => rfl
  | succ value => rw [encodeFuel, if_pos h]

theorem encode_of_le {value : Nat} (h : 128 ≤ value) :
    encode value = UInt8.ofNat (value % 128 + 128) :: encode (value / 128) := by
  obtain ⟨fuel, rfl⟩ : ∃ fuel, value = fuel + 1 := ⟨value - 1, by omega⟩
  rw [encode, encodeFuel, if_neg (by omega), encodeFuel_congr (by omega) (Nat.le_refl _), encode]

/-- A number of so many groups is written in so many bytes. -/
theorem length_encode_le {value count : Nat} (h : value < 128 ^ (count + 1)) :
    (encode value).length ≤ count + 1 := by
  induction count generalizing value with
  | zero =>
    rw [encode_of_lt (by omega)]
    rfl
  | succ count ih =>
    by_cases hsmall : value < 128
    · rw [encode_of_lt hsmall]
      simp
    · have hbound : value / 128 < 128 ^ (count + 1) := by
        rw [pow_succ] at h
        omega
      have hrest := ih hbound
      rw [encode_of_le (by omega), List.length_cons]
      omega

/-! ### What is read -/

/-- The number whose groups of seven bits, lowest first, are in the bytes. -/
def groups (bytes : Bytes) : Nat := Nat.ofDigits 128 (bytes.map fun byte => byte.toNat % 128)

theorem groups_cons (byte : UInt8) (rest : Bytes) :
    groups (byte :: rest) = byte.toNat % 128 + 128 * groups rest := by
  simp [groups, Nat.ofDigits_cons]

theorem groups_append (front back : Bytes) :
    groups (front ++ back) = groups front + 128 ^ front.length * groups back := by
  simp [groups, Nat.ofDigits_append]

theorem groups_lt (bytes : Bytes) : groups bytes < 128 ^ bytes.length := by
  have h := Nat.ofDigits_lt_base_pow_length (b := 128)
    (l := bytes.map fun byte => byte.toNat % 128) (by decide) fun digit hdigit => by
      obtain ⟨byte, -, rfl⟩ := List.mem_map.mp hdigit
      exact Nat.mod_lt _ (by decide)
  rwa [List.length_map] at h

theorem groups_eq_sum (bytes : Bytes) :
    groups bytes = ∑ i ∈ Finset.range bytes.length, (bytes.getD i 0).toNat % 128 * 128 ^ i := by
  induction bytes with
  | nil => rfl
  | cons byte rest ih =>
    rw [groups_cons, ih, List.length_cons, Finset.sum_range_succ', Finset.mul_sum, Nat.add_comm]
    congr 1
    · refine Finset.sum_congr rfl fun i _ => ?_
      rw [List.getD_cons_succ, pow_succ]
      ring
    · simp

/-- The bytes of a number: the first byte below 128 is its last one. -/
theorem decode_eq_some {bytes rest : Bytes} {value : Nat} :
    decode bytes = some (value, rest) ↔
      ∃ front last, bytes = front ++ last :: rest ∧ (∀ byte ∈ front, 128 ≤ byte.toNat) ∧
        last.toNat < 128 ∧ value = groups (front ++ [last]) := by
  induction bytes generalizing value with
  | nil => simp [decode]
  | cons byte bytes ih =>
    rw [decode]
    by_cases hlast : byte.toNat < 128
    · rw [if_pos hlast]
      constructor
      · rintro ⟨⟩
        exact ⟨[], byte, rfl, nofun, hlast, by simp [groups, Nat.mod_eq_of_lt hlast]⟩
      · rintro ⟨front, last, hbytes, hfront, -, rfl⟩
        cases front with
        | nil =>
          obtain ⟨rfl, rfl⟩ := List.cons_eq_cons.mp hbytes
          simp [groups, Nat.mod_eq_of_lt hlast]
        | cons first front =>
          obtain ⟨rfl, -⟩ := List.cons_eq_cons.mp hbytes
          exact absurd (hfront byte List.mem_cons_self) (Nat.not_le_of_lt hlast)
    · rw [if_neg hlast]
      have hbyte := byte.toNat_lt
      constructor
      · intro h
        split at h
        · rename_i tail behind htail
          simp only [Option.some.injEq, Prod.mk.injEq] at h
          obtain ⟨rfl, rfl⟩ := h
          obtain ⟨front, last, rfl, hfront, hsmall, rfl⟩ := ih.mp htail
          refine ⟨byte :: front, last, rfl, fun b hb => ?_, hsmall, ?_⟩
          · rcases List.mem_cons.mp hb with rfl | hb
            · omega
            · exact hfront b hb
          · rw [List.cons_append, groups_cons]
            omega
        · cases h
      · rintro ⟨front, last, hbytes, hfront, hsmall, rfl⟩
        cases front with
        | nil =>
          obtain ⟨rfl, -⟩ := List.cons_eq_cons.mp hbytes
          exact absurd hsmall hlast
        | cons first front =>
          obtain ⟨rfl, rfl⟩ := List.cons_eq_cons.mp hbytes
          have htail := ih.mpr ⟨front, last, rfl, fun b hb => hfront b (List.mem_cons_of_mem _ hb),
            hsmall, rfl⟩
          rw [htail, List.cons_append, groups_cons]
          simp only [Option.some.injEq, Prod.mk.injEq, and_true]
          omega

/-- A number takes at least one byte. -/
theorem length_lt_of_decode {bytes rest : Bytes} {value : Nat} (h : decode bytes = some (value, rest)) :
    rest.length < bytes.length := by
  obtain ⟨front, last, rfl, -⟩ := decode_eq_some.mp h
  simp only [List.length_append, List.length_cons]
  omega

end Lord.Varint
