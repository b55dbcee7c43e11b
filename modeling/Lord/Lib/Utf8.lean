import Lord.Lib.Bytes

/-! Text as its UTF-8 bytes. -/

namespace Lord.Utf8

def encode (text : String) : Bytes := text.toUTF8.data.toList

/-- `String::from_utf8`. -/
def decode (bytes : Bytes) : Option String := String.fromUTF8? ⟨bytes.toArray⟩

@[simp] theorem decode_encode (text : String) : decode (encode text) = some text := by
  have hvalid : (⟨(encode text).toArray⟩ : ByteArray) = text.toByteArray := by
    simp [encode]
  rw [decode, hvalid, String.fromUTF8?, dif_pos text.isValidUTF8]
  rfl

theorem encode_injective {a b : String} (h : encode a = encode b) : a = b := by
  have hab := congrArg decode h
  simpa using hab

theorem encode_eq_flatMap (text : String) :
    encode text = text.toList.flatMap String.utf8EncodeChar := by
  have hchars : ∀ chars : List Char,
      (String.ofList chars).toByteArray.data.toList = chars.flatMap String.utf8EncodeChar := by
    intro chars
    induction chars with
    | nil => rfl
    | cons c rest ih =>
      rw [String.toByteArray_ofList] at ih ⊢
      rw [List.utf8Encode_cons, List.utf8Encode_singleton, List.flatMap_cons, ← ih]
      simp
  rw [encode, String.toUTF8, ← hchars, String.ofList_toList]

/-- ASCII text has a byte for each character. -/
theorem length_encode_of_ascii {text : String} (h : ∀ c ∈ text.toList, c.toNat < 128) :
    (encode text).length = text.toList.length := by
  have hone : ∀ c ∈ text.toList, (String.utf8EncodeChar c).length = 1 := by
    intro c hc
    have hval : c.val ≤ 0x7f := by
      rw [UInt32.le_iff_toNat_le]
      exact Nat.le_of_lt_succ (h c hc)
    rw [String.length_utf8EncodeChar, Char.utf8Size]
    exact if_pos hval
  rw [encode_eq_flatMap, List.length_flatMap, List.map_congr_left hone]
  simp

theorem encode_append (a b : String) : encode (a ++ b) = encode a ++ encode b := by
  simp [encode_eq_flatMap]

theorem mem_encode {text : String} {c : Char} (hc : c ∈ text.toList) {byte : UInt8}
    (hbyte : byte ∈ String.utf8EncodeChar c) : byte ∈ encode text := by
  rw [encode_eq_flatMap]
  exact List.mem_flatMap.mpr ⟨c, hc, hbyte⟩

/-- An ASCII byte stands for a character of its own. -/
theorem toNat_of_mem_utf8EncodeChar {c : Char} {byte : UInt8} (h : byte ∈ String.utf8EncodeChar c)
    (hascii : byte.toNat < 128) : c.toNat = byte.toNat := by
  have hval : c.val.toNat = c.toNat := rfl
  simp only [String.utf8EncodeChar, hval] at h
  split_ifs at h with h1 h2 h3
  · rw [List.mem_singleton] at h
    subst h
    rw [UInt8.toNat_ofNat']
    omega
  · simp only [List.mem_cons, List.not_mem_nil, or_false] at h
    rcases h with rfl | rfl <;> rw [UInt8.toNat_ofNat'] at hascii <;> omega
  · simp only [List.mem_cons, List.not_mem_nil, or_false] at h
    rcases h with rfl | rfl | rfl <;> rw [UInt8.toNat_ofNat'] at hascii <;> omega
  · simp only [List.mem_cons, List.not_mem_nil, or_false] at h
    rcases h with rfl | rfl | rfl | rfl <;> rw [UInt8.toNat_ofNat'] at hascii <;> omega

theorem not_mem_encode {text : String} {c : Char} {byte : UInt8} (hbyte : c.toNat = byte.toNat)
    (hascii : byte.toNat < 128) (h : c ∉ text.toList) : byte ∉ encode text := by
  rw [encode_eq_flatMap, List.mem_flatMap]
  rintro ⟨c', hc', hmem⟩
  have heq := (toNat_of_mem_utf8EncodeChar hmem hascii).trans hbyte.symm
  exact h (Char.toNat_inj.mp heq ▸ hc')

theorem decode_eq_some {bytes : Bytes} {text : String} :
    decode bytes = some text ↔ bytes = encode text := by
  constructor
  · intro h
    unfold decode String.fromUTF8? at h
    split at h
    · cases h
      simp [encode, String.fromUTF8]
    · cases h
  · rintro rfl
    exact decode_encode text

/-- The bytes are valid UTF-8. -/
def IsText (bytes : Bytes) : Prop := ∃ text, bytes = encode text

theorem IsText.append {a b : Bytes} (ha : IsText a) (hb : IsText b) : IsText (a ++ b) := by
  obtain ⟨s, rfl⟩ := ha
  obtain ⟨t, rfl⟩ := hb
  exact ⟨s ++ t, (encode_append s t).symm⟩

/-- Text in front of bytes that make text leaves text. -/
theorem exists_of_encode_append {front : String} {back : Bytes} {text : String}
    (h : encode front ++ back = encode text) :
    ∃ rest, text = front ++ rest ∧ back = encode rest := by
  have hprefix : front.toList <+: text.toList := by
    apply List.isPrefix_of_utf8Encode_append_eq_utf8Encode ⟨back.toArray⟩
    apply ByteArray.ext
    apply Array.ext'
    simpa [encode] using h
  obtain ⟨rest, hrest⟩ := hprefix
  have htext : text = front ++ String.ofList rest := by
    rw [← String.toList_inj, String.toList_append, String.toList_ofList, hrest]
  refine ⟨String.ofList rest, htext, ?_⟩
  rw [htext, encode_append] at h
  exact List.append_cancel_left h

theorem IsText.of_append {a b : Bytes} (ha : IsText a) (hab : IsText (a ++ b)) : IsText b := by
  obtain ⟨s, rfl⟩ := ha
  obtain ⟨t, ht⟩ := hab
  obtain ⟨rest, -, hrest⟩ := exists_of_encode_append ht
  exact ⟨rest, hrest⟩

end Lord.Utf8
