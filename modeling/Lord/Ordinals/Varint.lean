import Lord.Lib.Varint

/-! The varints of the index: `u128`s in groups of seven bits, lowest first.  The nineteenth group is
shifted by 126 bits, so five of its bits fall out of a `u128`. -/

namespace Lord.Ordinals.Varint

inductive Error where
  | overlong
  deriving Repr, DecidableEq

/-- `n.to_le_bytes()[0]`. -/
def lowByte (n : BitVec 128) : UInt8 := .ofBitVec (n.setWidth 8)

def encodeToVec (n : BitVec 128) (v : Bytes) : Bytes :=
  if 0 < n >>> 7 then
    encodeToVec (n >>> 7) (v ++ [lowByte n ||| 0b10000000])
  else
    v ++ [lowByte n]
termination_by n.toNat
decreasing_by
  rename_i h
  rw [BitVec.lt_def] at h
  simp only [BitVec.toNat_ushiftRight, Nat.shiftRight_eq_div_pow] at h ⊢
  omega

/-- The loop of `decode`, with what it has read and the index of the next byte. -/
def decodeFrom (n : BitVec 128) (i : Nat) : Bytes → Except Error (BitVec 128 × Nat)
  | [] => .error .overlong
  | byte :: rest =>
    if 18 < i then
      .error .overlong
    else
      let value := byte.toBitVec.setWidth 128 &&& 0b01111111
      let n := n ||| value <<< (7 * i)
      if byte &&& 0b10000000 = 0 then
        .ok (n, i + 1)
      else
        decodeFrom n (i + 1) rest

def decode (buffer : Bytes) : Except Error (BitVec 128 × Nat) := decodeFrom 0 0 buffer

/-! ### Bytes and bits as numbers -/

theorem toNat_shift (n : BitVec 128) : (n >>> 7).toNat = n.toNat / 128 := by
  rw [BitVec.toNat_ushiftRight, Nat.shiftRight_eq_div_pow]

theorem shift_pos (n : BitVec 128) : 0 < n >>> 7 ↔ 128 ≤ n.toNat := by
  rw [BitVec.lt_def, toNat_shift]
  change 0 < n.toNat / 128 ↔ _
  omega

theorem lowByte_eq (n : BitVec 128) : lowByte n = UInt8.ofNat n.toNat := by
  refine UInt8.toNat_inj.mp ?_
  simp [lowByte]

theorem or_high : ∀ m < 256, m ||| 128 = m % 128 + 128 := by decide +kernel

theorem and_high : ∀ m < 256, m &&& 128 = 0 ↔ m < 128 := by decide +kernel

theorem lowByte_or (n : BitVec 128) :
    lowByte n ||| 0b10000000 = UInt8.ofNat (n.toNat % 128 + 128) := by
  refine UInt8.toNat_inj.mp ?_
  have hbyte : (lowByte n).toNat = n.toNat % 256 := by
    simp [lowByte_eq]
  rw [UInt8.toNat_or, hbyte]
  change n.toNat % 256 ||| 128 = _
  rw [or_high _ (Nat.mod_lt _ (by decide)), UInt8.toNat_ofNat']
  omega

theorem and_eq_zero (byte : UInt8) : byte &&& 0b10000000 = 0 ↔ byte.toNat < 128 := by
  rw [← UInt8.toNat_inj, UInt8.toNat_and]
  exact and_high _ byte.toNat_lt

theorem toNat_value (byte : UInt8) :
    (byte.toBitVec.setWidth 128 &&& 0b01111111).toNat = byte.toNat % 128 := by
  have hbyte : (byte.toBitVec.setWidth 128).toNat = byte.toNat := by
    have := byte.toNat_lt
    rw [BitVec.toNat_setWidth, UInt8.toNat_toBitVec, Nat.mod_eq_of_lt (by omega)]
  rw [BitVec.toNat_and, hbyte]
  exact Nat.and_two_pow_sub_one_eq_mod _ 7

/-- A group of bits above what there is, as far as it fits. -/
theorem toNat_or_shift (value : BitVec 128) {n : BitVec 128} {i : Nat} (hi : i ≤ 18)
    (hn : n.toNat < 2 ^ (7 * i)) :
    (n ||| value <<< (7 * i)).toNat = (n.toNat + 2 ^ (7 * i) * value.toNat) % 2 ^ 128 := by
  have hwidth : 2 ^ 128 = 2 ^ (7 * i) * 2 ^ (128 - 7 * i) := by
    rw [← pow_add]
    congr 1
    omega
  have hshift : value.toNat <<< (7 * i) % 2 ^ 128 =
      2 ^ (7 * i) * (value.toNat % 2 ^ (128 - 7 * i)) := by
    rw [hwidth, Nat.shiftLeft_eq, Nat.mul_comm, Nat.mul_mod_mul_left]
  rw [BitVec.toNat_or, BitVec.toNat_shiftLeft, hshift, Nat.or_comm,
    ← Nat.two_pow_add_eq_or_of_lt hn, hwidth, Nat.mod_mul, Nat.add_mul_mod_self_left,
    Nat.mod_eq_of_lt hn, Nat.add_mul_div_left _ _ (Nat.two_pow_pos _), Nat.div_eq_of_lt hn,
    Nat.zero_add, Nat.add_comm]

/-! ### The writer -/

theorem encodeToVec_eq (n : BitVec 128) (v : Bytes) :
    encodeToVec n v = v ++ Lord.Varint.encode n.toNat := by
  fun_induction encodeToVec n v with
  | case1 n v hmore ih =>
    rw [ih, toNat_shift, Lord.Varint.encode_of_le ((shift_pos n).mp hmore), lowByte_or,
      List.append_assoc, List.singleton_append]
  | case2 n v hlast =>
    rw [shift_pos, Nat.not_le] at hlast
    rw [Lord.Varint.encode_of_lt hlast, lowByte_eq]

/-- A `u128` takes nineteen bytes at most. -/
theorem length_encodeToVec_le (n : BitVec 128) : (encodeToVec n []).length ≤ 19 := by
  rw [encodeToVec_eq, List.nil_append]
  have hn : n.toNat < 128 ^ (18 + 1) := Nat.lt_trans n.isLt (by decide)
  exact Lord.Varint.length_encode_le hn

/-! ### The reader -/

/-- The loop reads as many bytes as the number has, and as many bits of it as fit. -/
theorem decodeFrom_eq_ok (bytes : Bytes) (n m : BitVec 128) {i : Nat} (k : Nat) (hi : i ≤ 19)
    (hn : n.toNat < 2 ^ (7 * i)) :
    decodeFrom n i bytes = .ok (m, k) ↔
      ∃ value rest, Lord.Varint.decode bytes = some (value, rest) ∧
        k + rest.length = i + bytes.length ∧ k ≤ 19 ∧
        m.toNat = (n.toNat + 2 ^ (7 * i) * value) % 2 ^ 128 := by
  induction bytes generalizing n i with
  | nil => simp [decodeFrom, Lord.Varint.decode]
  | cons byte bytes ih =>
    have hbyte := byte.toNat_lt
    by_cases hlong : 18 < i
    · rw [decodeFrom, if_pos hlong]
      refine iff_of_false (by rintro ⟨⟩) ?_
      rintro ⟨value, rest, hread, hlength, hk, -⟩
      have hshort := Lord.Varint.length_lt_of_decode hread
      omega
    · have hor := toNat_or_shift (byte.toBitVec.setWidth 128 &&& 0b01111111) (by omega) hn
      rw [toNat_value] at hor
      rw [decodeFrom, if_neg hlong, Lord.Varint.decode]
      simp only [and_eq_zero]
      by_cases hlast : byte.toNat < 128
      · rw [if_pos hlast, if_pos hlast]
        rw [Nat.mod_eq_of_lt hlast] at hor
        simp only [Except.ok.injEq, Prod.mk.injEq, Option.some.injEq, List.length_cons]
        constructor
        · rintro ⟨rfl, rfl⟩
          exact ⟨_, _, ⟨rfl, rfl⟩, by omega, by omega, hor⟩
        · rintro ⟨value, rest, ⟨rfl, rfl⟩, hlength, -, hm⟩
          exact ⟨BitVec.eq_of_toNat_eq (hor.trans hm.symm), by omega⟩
      · rw [if_neg hlast, if_neg hlast]
        have hgroup : byte.toNat % 128 = byte.toNat - 128 := by omega
        have hnext : (n ||| (byte.toBitVec.setWidth 128 &&& 0b01111111) <<< (7 * i)).toNat <
            2 ^ (7 * (i + 1)) := by
          rw [hor, show 7 * (i + 1) = 7 * i + 7 by omega, pow_add]
          refine Nat.lt_of_le_of_lt (Nat.mod_le _ _) ?_
          have hless : byte.toNat % 128 + 1 ≤ 128 := Nat.mod_lt _ (by decide)
          calc n.toNat + 2 ^ (7 * i) * (byte.toNat % 128)
              < 2 ^ (7 * i) + 2 ^ (7 * i) * (byte.toNat % 128) := Nat.add_lt_add_right hn _
            _ = 2 ^ (7 * i) * (byte.toNat % 128 + 1) := by rw [Nat.mul_add_one, Nat.add_comm]
            _ ≤ 2 ^ (7 * i) * 2 ^ 7 := Nat.mul_le_mul_left _ hless
        -- What is read behind the byte stands seven bits further up.
        have hsum : ∀ value, ((n ||| (byte.toBitVec.setWidth 128 &&& 0b01111111) <<< (7 * i)).toNat +
            2 ^ (7 * (i + 1)) * value) % 2 ^ 128 =
              (n.toNat + 2 ^ (7 * i) * (byte.toNat - 128 + 128 * value)) % 2 ^ 128 := by
          intro value
          rw [hor, Nat.mod_add_mod, hgroup, show 7 * (i + 1) = 7 * i + 7 by omega, pow_add]
          refine congrArg (· % 2 ^ 128) ?_
          ring
        rw [ih _ (by omega) hnext]
        simp only [hsum]
        constructor
        · rintro ⟨value, rest, hread, hlength, hk, hm⟩
          rw [hread]
          exact ⟨_, _, rfl, by rw [List.length_cons]; omega, hk, hm⟩
        · rintro ⟨value, rest, hread, hlength, hk, hm⟩
          split at hread
          · rename_i tail behind htail
            simp only [Option.some.injEq, Prod.mk.injEq] at hread
            obtain ⟨rfl, rfl⟩ := hread
            exact ⟨_, _, htail, by rw [List.length_cons] at hlength; omega, hk, hm⟩
          · cases hread

theorem decode_eq_ok {buffer : Bytes} {n : BitVec 128} {k : Nat} :
    decode buffer = .ok (n, k) ↔
      ∃ value rest, Lord.Varint.decode buffer = some (value, rest) ∧
        k + rest.length = buffer.length ∧ k ≤ 19 ∧ n.toNat = value % 2 ^ 128 := by
  have hloop := decodeFrom_eq_ok buffer 0 n k (Nat.zero_le 19) (Nat.two_pow_pos _)
  rw [decode]
  simpa using hloop

/-- What is written reads back, in front of any bytes. -/
theorem decode_encodeToVec (n : BitVec 128) (suffix : Bytes) :
    decode (encodeToVec n [] ++ suffix) = .ok (n, (encodeToVec n []).length) := by
  rw [decode_eq_ok]
  refine ⟨n.toNat, suffix, ?_, (List.length_append).symm, length_encodeToVec_le n,
    (Nat.mod_eq_of_lt n.isLt).symm⟩
  rw [encodeToVec_eq, List.nil_append, Lord.Varint.decode_encode]

/-! ### Accepted encodings -/

/-- An accepted encoding gives the number that its groups make. -/
def Exact (buffer : Bytes) : Prop :=
  ∀ n k, decode buffer = .ok (n, k) →
    n.toNat = ∑ i ∈ Finset.range k, (buffer.getD i 0).toNat % 128 * 128 ^ i

/-- The number has a nineteenth byte, which is its last one and holds more than two bits. -/
def Overflows (buffer : Bytes) : Prop :=
  18 < buffer.length ∧ (∀ byte ∈ buffer.take 18, 128 ≤ byte.toNat) ∧
    4 ≤ (buffer.getD 18 0).toNat ∧ (buffer.getD 18 0).toNat < 128

/-- The groups of a number that is read as the sum over its bytes. -/
theorem sum_of_decode {buffer rest : Bytes} {value k : Nat}
    (h : Lord.Varint.decode buffer = some (value, rest)) (hk : k + rest.length = buffer.length) :
    value = ∑ i ∈ Finset.range k, (buffer.getD i 0).toNat % 128 * 128 ^ i := by
  obtain ⟨front, last, rfl, -, -, rfl⟩ := Lord.Varint.decode_eq_some.mp h
  obtain rfl : k = (front ++ [last]).length := by
    simp only [List.length_append, List.length_cons, List.length_nil] at hk ⊢
    omega
  rw [Lord.Varint.groups_eq_sum]
  refine Finset.sum_congr rfl fun i hi => ?_
  rw [show front ++ last :: rest = front ++ [last] ++ rest by simp, List.getD_eq_getElem?_getD,
    List.getD_eq_getElem?_getD, List.getElem?_append_left (Finset.mem_range.mp hi)]

/-- A number of nineteen bytes at most is too large exactly when its nineteenth byte is. -/
theorem overflows_iff {buffer rest : Bytes} {value k : Nat}
    (h : Lord.Varint.decode buffer = some (value, rest)) (hk : k + rest.length = buffer.length)
    (hshort : k ≤ 19) : Overflows buffer ↔ 2 ^ 128 ≤ value := by
  obtain ⟨front, last, rfl, hfront, hlast, rfl⟩ := Lord.Varint.decode_eq_some.mp h
  rw [List.length_append, List.length_cons] at hk
  have hbound := Lord.Varint.groups_lt front
  have hvalue : Lord.Varint.groups (front ++ [last]) =
      Lord.Varint.groups front + 128 ^ front.length * last.toNat := by
    rw [Lord.Varint.groups_append, Lord.Varint.groups_cons, Nat.mod_eq_of_lt hlast]
    rfl
  by_cases hall : front.length = 18
  · have htake : (front ++ last :: rest).take 18 = front := List.take_left' hall
    have hget : (front ++ last :: rest).getD 18 0 = last := by
      simp [← hall]
    rw [hall] at hbound hvalue
    unfold Overflows
    rw [htake, hget, hvalue, List.length_append, List.length_cons]
    constructor
    · rintro ⟨-, -, hfour, -⟩
      omega
    · intro hlarge
      exact ⟨by omega, hfront, by omega, hlast⟩
  · have hless : front.length < 18 := by omega
    refine iff_of_false ?_ ?_
    · rintro ⟨-, htake, -⟩
      have hmem : last ∈ (front ++ last :: rest).take 18 := by
        refine List.mem_take_iff_getElem.mpr ⟨front.length, ?_, by simp⟩
        rw [List.length_append, List.length_cons]
        omega
      exact absurd (htake last hmem) (Nat.not_le_of_lt hlast)
    · have htotal := Lord.Varint.groups_lt (front ++ [last])
      have hpow : (128 : Nat) ^ (front ++ [last]).length ≤ 128 ^ 18 :=
        Nat.pow_le_pow_right (by decide) (by simp; omega)
      omega

/-- Such a number is accepted. -/
theorem Overflows.decode_eq_ok {buffer : Bytes} (h : Overflows buffer) :
    ∃ value rest n, Lord.Varint.decode buffer = some (value, rest) ∧
      19 + rest.length = buffer.length ∧ decode buffer = .ok (n, 19) := by
  obtain ⟨hlength, hfront, -, hlast⟩ := h
  have hbuffer : buffer = buffer.take 18 ++ buffer.getD 18 0 :: buffer.drop 19 := by
    have hget : buffer.getD 18 0 = buffer[18] := by simp [hlength]
    rw [hget, ← List.drop_eq_getElem_cons hlength,
      List.take_append_drop]
  have hread := Lord.Varint.decode_eq_some.mpr ⟨_, _, hbuffer, hfront, hlast, rfl⟩
  have hrest : 19 + (buffer.drop 19).length = buffer.length := by
    rw [List.length_drop]
    omega
  exact ⟨_, _, BitVec.ofNat 128 _, hread, hrest,
    Varint.decode_eq_ok.mpr ⟨_, _, hread, hrest, Nat.le_refl 19, BitVec.toNat_ofNat _ _⟩⟩

/-- Encodings read back, and an accepted encoding is read exactly unless its nineteenth byte has bits
beyond the `u128`. -/
theorem varint_exact_iff (n : BitVec 128) (suffix buffer : Bytes) :
    decode (encodeToVec n [] ++ suffix) = .ok (n, (encodeToVec n []).length) ∧
      (Exact buffer ↔ ¬Overflows buffer) := by
  refine ⟨decode_encodeToVec n suffix, fun hexact hover => ?_, fun hover n k h => ?_⟩
  · obtain ⟨value, rest, n, hread, hk, hdecode⟩ := hover.decode_eq_ok
    have hlarge := (overflows_iff hread hk (Nat.le_refl 19)).mp hover
    have hsum := hexact n 19 hdecode
    rw [← sum_of_decode hread hk] at hsum
    exact absurd n.isLt (Nat.not_lt_of_le (hsum ▸ hlarge))
  · obtain ⟨value, rest, hread, hk, hshort, hn⟩ := decode_eq_ok.mp h
    have hfits : value < 2 ^ 128 := Nat.not_le.mp fun hlarge =>
      hover ((overflows_iff hread hk hshort).mpr hlarge)
    rw [hn, Nat.mod_eq_of_lt hfits]
    exact sum_of_decode hread hk

/-- Eighteen groups of zeros and a nineteenth one of 4, which is `2 ^ 128`, are read as zero. -/
theorem not_exact_nineteenth :
    decode (List.replicate 18 0x80 ++ [4]) = .ok (0, 19) ∧
      ¬Exact (List.replicate 18 0x80 ++ [4]) := by
  have hdecode : decode (List.replicate 18 0x80 ++ [4]) = .ok (0, 19) := by decide +kernel
  refine ⟨hdecode, fun h => ?_⟩
  have hsum := h 0 19 hdecode
  revert hsum
  decide +kernel


end Lord.Ordinals.Varint
