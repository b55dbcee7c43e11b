import Lord.Lib.Bincode
import Lord.Lib.SortedMap

/-! CBOR of definite lengths: every item begins with a head, its major type and a count in the
fewest bytes. -/

namespace Lord.Cbor

open Bincode (Reader Reads)

/-- The head of an item; numbers of `2 ^ 64` and more have none. -/
def writeHead (major count : Nat) : Bytes :=
  if count < 24 then
    [UInt8.ofNat (32 * major + count)]
  else
    let size := if count < 256 then 0 else if count < 256 ^ 2 then 1 else if count < 256 ^ 4 then 2 else 3
    UInt8.ofNat (32 * major + (24 + size)) :: (LittleEndian.encode (2 ^ size) count).reverse

def readHead (major : Nat) : Reader Nat
  | [] => .error "end of input bytes"
  | first :: rest =>
    if first.toNat / 32 ≠ major ∨ 27 < first.toNat % 32 then
      .error "unexpected type"
    else if first.toNat % 32 < 24 then
      .ok (first.toNat % 32, rest)
    else do
      let digits ← Bincode.readBytes (2 ^ (first.toNat % 32 - 24)) rest
      .ok (LittleEndian.decode digits.1.reverse, digits.2)

theorem reads_head {major count : Nat} (hmajor : major < 8) (h : count < 256 ^ 8) :
    Reads (readHead major) (writeHead major count) count := by
  have hfirst : ∀ info, info < 32 →
      (UInt8.ofNat (32 * major + info)).toNat = 32 * major + info := by
    intro info hinfo
    rw [UInt8.toNat_ofNat']
    omega
  intro rest
  rw [writeHead]
  by_cases hsmall : count < 24
  · rw [if_pos hsmall, List.singleton_append, readHead, hfirst count (by omega),
      if_neg (by omega), if_pos (by omega)]
    have hcount : (32 * major + count) % 32 = count := by omega
    rw [hcount]
  · rw [if_neg hsmall]
    obtain ⟨size, hsize, hwidth, hbound⟩ : ∃ size,
        (if count < 256 then 0 else if count < 256 ^ 2 then 1
          else if count < 256 ^ 4 then 2 else 3) = size ∧ size ≤ 3 ∧ count < 256 ^ 2 ^ size := by
      refine ⟨_, rfl, ?_⟩
      split_ifs <;> omega
    have hdigits := Bincode.reads_bytes (LittleEndian.encode (2 ^ size) count).reverse rest
    rw [List.length_reverse, LittleEndian.length_encode] at hdigits
    have hinfo : (32 * major + (24 + size)) % 32 = 24 + size := by omega
    dsimp only
    rw [hsize, List.cons_append, readHead, hfirst (24 + size) (by omega), if_neg (by omega), hinfo,
      if_neg (by omega), Nat.add_sub_cancel_left]
    refine bind_eq_ok.mpr ⟨_, hdigits, ?_⟩
    rw [List.reverse_reverse, LittleEndian.decode_encode hbound]

/-! ### Strings -/

def writeBytes (data : Bytes) : Bytes := writeHead 2 data.length ++ data

def readBytes : Reader Bytes := fun bytes => do
  let count ← readHead 2 bytes
  Bincode.readBytes count.1 count.2

def writeText (text : String) : Bytes :=
  writeHead 3 (Utf8.encode text).length ++ Utf8.encode text

def readText : Reader String := fun bytes => do
  let count ← readHead 3 bytes
  let data ← Bincode.readBytes count.1 count.2
  let text ← okOr (Utf8.decode data.1) "invalid utf-8"
  .ok (text, data.2)

theorem reads_bytes {data : Bytes} (h : data.length < 256 ^ 8) :
    Reads readBytes (writeBytes data) data := by
  intro rest
  rw [writeBytes, List.append_assoc]
  exact bind_eq_ok.mpr ⟨_, reads_head (by omega) h _, Bincode.reads_bytes data rest⟩

theorem reads_text {text : String} (h : (Utf8.encode text).length < 256 ^ 8) :
    Reads readText (writeText text) text := by
  intro rest
  rw [writeText, List.append_assoc]
  refine bind_eq_ok.mpr ⟨_, reads_head (by omega) h _, ?_⟩
  refine bind_eq_ok.mpr ⟨_, Bincode.reads_bytes _ rest, ?_⟩
  exact bind_eq_ok.mpr ⟨text, okOr_eq_ok.mpr (Utf8.decode_encode text), rfl⟩

/-! ### Arrays and maps -/

def readItems {α : Type} (reader : Reader α) : Nat → Reader (List α)
  | 0, bytes => .ok ([], bytes)
  | count + 1, bytes => do
    let first ← reader bytes
    let others ← readItems reader count first.2
    .ok (first.1 :: others.1, others.2)

theorem reads_items {α : Type} {reader : Reader α} {write : α → Bytes} {items : List α}
    (h : ∀ item ∈ items, Reads reader (write item) item) :
    Reads (readItems reader items.length) (items.flatMap write) items := by
  induction items with
  | nil => exact fun rest => rfl
  | cons item items ih =>
    intro rest
    rw [List.flatMap_cons, List.append_assoc, List.length_cons, readItems]
    refine bind_eq_ok.mpr ⟨_, h item List.mem_cons_self _, ?_⟩
    refine bind_eq_ok.mpr ⟨_, ih (fun other hother => h other (List.mem_cons_of_mem _ hother)) rest,
      rfl⟩

def writeArray {α : Type} (write : α → Bytes) (items : List α) : Bytes :=
  writeHead 4 items.length ++ items.flatMap write

def readArray {α : Type} (reader : Reader α) : Reader (List α) := fun bytes => do
  let count ← readHead 4 bytes
  readItems reader count.1 count.2

theorem reads_array {α : Type} {reader : Reader α} {write : α → Bytes} {items : List α}
    (h : ∀ item ∈ items, Reads reader (write item) item) (hlength : items.length < 256 ^ 8) :
    Reads (readArray reader) (writeArray write items) items := by
  intro rest
  rw [writeArray, List.append_assoc]
  exact bind_eq_ok.mpr ⟨_, reads_head (by omega) hlength _, reads_items h rest⟩

/-- The fields of a record are an array. -/
def writeRecord (fields : List Bytes) : Bytes := writeHead 4 fields.length ++ fields.flatten

def readRecord {α : Type} (count : Nat) (fields : Reader α) : Reader α := fun bytes => do
  let head ← readHead 4 bytes
  if head.1 = count then fields head.2 else .error "missing value"

theorem reads_record {α : Type} {reader : Reader α} {fields : List Bytes} {value : α}
    (h : Reads reader fields.flatten value) (hlength : fields.length < 256 ^ 8) :
    Reads (readRecord fields.length reader) (writeRecord fields) value := by
  intro rest
  rw [writeRecord, List.append_assoc]
  refine bind_eq_ok.mpr ⟨_, reads_head (by omega) hlength _, ?_⟩
  rw [if_pos rfl]
  exact h rest

section

variable {κ β : Type} [LinearOrder κ]

def writeMap (writeKey : κ → Bytes) (writeValue : β → Bytes) (m : SortedMap κ β) : Bytes :=
  writeHead 5 m.entries.length ++
    m.entries.flatMap fun entry => writeKey entry.1 ++ writeValue entry.2

def readEntry (readKey : Reader κ) (readValue : Reader β) : Reader (κ × β) := fun bytes => do
  let key ← readKey bytes
  let value ← readValue key.2
  .ok ((key.1, value.1), value.2)

/-- A map from the entries of its encoding, of which a later one replaces an earlier one. -/
def readMap (readKey : Reader κ) (readValue : Reader β) : Reader (SortedMap κ β) := fun bytes => do
  let count ← readHead 5 bytes
  let entries ← readItems (readEntry readKey readValue) count.1 count.2
  .ok (SortedMap.ofEntries entries.1, entries.2)

omit [LinearOrder κ] in
theorem reads_entry {readKey : Reader κ} {readValue : Reader β} {key value : Bytes}
    {entry : κ × β} (hkey : Reads readKey key entry.1) (hvalue : Reads readValue value entry.2) :
    Reads (readEntry readKey readValue) (key ++ value) entry := by
  intro rest
  rw [List.append_assoc]
  exact bind_eq_ok.mpr ⟨_, hkey _, bind_eq_ok.mpr ⟨_, hvalue rest, rfl⟩⟩

theorem reads_map {readKey : Reader κ} {readValue : Reader β} {writeKey : κ → Bytes}
    {writeValue : β → Bytes} {m : SortedMap κ β}
    (h : ∀ entry ∈ m.entries, Reads readKey (writeKey entry.1) entry.1 ∧
      Reads readValue (writeValue entry.2) entry.2) (hlength : m.entries.length < 256 ^ 8) :
    Reads (readMap readKey readValue) (writeMap writeKey writeValue m) m := by
  intro rest
  have hentries := reads_items (fun entry hentry => reads_entry (h entry hentry).1
    (h entry hentry).2) rest
  rw [writeMap, List.append_assoc]
  refine bind_eq_ok.mpr ⟨_, reads_head (by omega) hlength _, ?_⟩
  refine bind_eq_ok.mpr ⟨_, hentries, ?_⟩
  rw [SortedMap.ofEntries_entries]

end

end Lord.Cbor
