import Lord.Lib.LittleEndian
import Lord.Lib.Utf8

/-! Bincode with fixed-width integers: little-endian numbers, and counted bytes and text.  A reader
takes a value from the front of the bytes. -/

namespace Lord.Bincode

/-- A reader of values from the front of the bytes. -/
abbrev Reader (α : Type) := Bytes → Result (α × Bytes)

/-- The reader takes this value, written so, from the front of any bytes. -/
def Reads {α : Type} (reader : Reader α) (written : Bytes) (value : α) : Prop :=
  ∀ rest, reader (written ++ rest) = .ok (value, rest)

def readBytes (count : Nat) : Reader Bytes := fun bytes =>
  if bytes.length < count then .error "io error: " else .ok (bytes.take count, bytes.drop count)

def readArray32 : Reader Bytes32 := fun bytes =>
  if h : bytes.length < 32 then
    .error "io error: "
  else
    .ok (⟨bytes.take 32, by simp; omega⟩, bytes.drop 32)

def readUInt (width : Nat) : Reader Nat := fun bytes => do
  let digits ← readBytes width bytes
  .ok (LittleEndian.decode digits.1, digits.2)

def writeVec (data : Bytes) : Bytes := LittleEndian.encode 8 data.length ++ data

def readVec : Reader Bytes := fun bytes => do
  let count ← readUInt 8 bytes
  readBytes count.1 count.2

def writeString (text : String) : Bytes := writeVec (Utf8.encode text)

def readString : Reader String := fun bytes => do
  let data ← readVec bytes
  let text ← okOr (Utf8.decode data.1) "string is not valid utf8"
  .ok (text, data.2)

theorem reads_bytes (data : Bytes) : Reads (readBytes data.length) data data := by
  intro rest
  simp [readBytes]

theorem reads_array32 (data : Bytes32) : Reads readArray32 data.val data := by
  intro rest
  have hlen := data.property
  have hnot : ¬(data.val ++ rest).length < 32 := by simp [hlen]
  rw [readArray32, dif_neg hnot]
  simp [hlen]

theorem reads_uint {width value : Nat} (h : value < 256 ^ width) :
    Reads (readUInt width) (LittleEndian.encode width value) value := by
  intro rest
  have hdigits := reads_bytes (LittleEndian.encode width value) rest
  rw [LittleEndian.length_encode] at hdigits
  refine bind_eq_ok.mpr ⟨_, hdigits, ?_⟩
  rw [LittleEndian.decode_encode h]

theorem reads_vec {data : Bytes} (h : data.length < 256 ^ 8) :
    Reads readVec (writeVec data) data := by
  intro rest
  rw [writeVec, List.append_assoc]
  exact bind_eq_ok.mpr ⟨_, reads_uint h _, reads_bytes data rest⟩

theorem reads_string {text : String} (h : (Utf8.encode text).length < 256 ^ 8) :
    Reads readString (writeString text) text := by
  intro rest
  exact bind_eq_ok.mpr ⟨_, reads_vec h rest,
    bind_eq_ok.mpr ⟨text, okOr_eq_ok.mpr (Utf8.decode_encode text), rfl⟩⟩

end Lord.Bincode
