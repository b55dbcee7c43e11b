import Lord.Lib.Bech32
import Lord.Lib.Blake3
import Lord.Lib.Cbor
import Lord.Storage.CaseyArchive

/-! The derived encodings of archives, directories and sidecars: a structure is the array of its
fields, an enumeration the index of its variant, and `Vec<u8>` an array of numbers. -/

namespace Lord.Storage.CaseyCodec

open Bincode (Reader Reads)

/-- The encoding that a writer and a reader make. -/
@[reducible] def minicbor {α : Type} (write : α → Bytes) (reader : Reader α) : Minicbor α where
  toVec value := .ok (write value)
  decode bytes := do
    let value ← reader bytes
    .ok value.1

theorem inverse_of_reads {α : Type} {write : α → Bytes} {reader : Reader α} {value : α}
    (h : Reads reader (write value) value) : @Inverse α (minicbor write reader) value := by
  refine ⟨write value, rfl, ?_⟩
  have hread := h []
  rw [List.append_nil] at hread
  exact bind_eq_ok.mpr ⟨_, hread, rfl⟩

/-! ### Hashes, numbers and entries -/

def writeHash (hash : Bytes32) : Bytes := Cbor.writeBytes hash.val

def readHash : Reader Bytes32 := fun bytes => do
  let data ← Cbor.readBytes bytes
  if h : data.1.length = 32 then .ok (⟨data.1, h⟩, data.2) else .error "expected 32-byte hash"

theorem reads_hash (hash : Bytes32) : Reads readHash (writeHash hash) hash := by
  intro rest
  have hbytes := @Cbor.reads_bytes hash.val (by rw [hash.property]; omega) rest
  exact bind_eq_ok.mpr ⟨_, hbytes, dif_pos hash.property⟩

def writeByte (byte : UInt8) : Bytes := Cbor.writeHead 0 byte.toNat

def readByte : Reader UInt8 := fun bytes => do
  let number ← Cbor.readHead 0 bytes
  if number.1 < 256 then .ok (UInt8.ofNat number.1, number.2) else .error "integer overflow"

theorem reads_byte (byte : UInt8) : Reads readByte (writeByte byte) byte := by
  intro rest
  have hbyte := byte.toNat_lt
  refine bind_eq_ok.mpr ⟨_, Cbor.reads_head (by omega) (by omega) rest, ?_⟩
  rw [if_pos (by omega)]
  simp

def entryTypeIndex : EntryType → Nat
  | .file => 0
  | .directory => 1

def readEntryType : Reader EntryType := fun bytes => do
  let index ← Cbor.readHead 0 bytes
  match index.1 with
  | 0 => .ok (.file, index.2)
  | 1 => .ok (.directory, index.2)
  | _ => .error "unknown enum variant"

theorem reads_entryType (ty : EntryType) :
    Reads readEntryType (Cbor.writeHead 0 (entryTypeIndex ty)) ty := by
  intro rest
  cases ty with
  | file => exact bind_eq_ok.mpr ⟨_, Cbor.reads_head (by omega) (by decide) rest, rfl⟩
  | directory => exact bind_eq_ok.mpr ⟨_, Cbor.reads_head (by omega) (by decide) rest, rfl⟩

def readVersion : Reader Version := fun bytes => do
  let index ← Cbor.readHead 0 bytes
  match index.1 with
  | 0 => .ok (.zero, index.2)
  | _ => .error "unknown enum variant"

theorem reads_version (version : Version) : Reads readVersion (Cbor.writeHead 0 0) version := by
  intro rest
  exact bind_eq_ok.mpr ⟨_, Cbor.reads_head (by omega) (by decide) rest, rfl⟩

def writeEntry (entry : Entry) : Bytes :=
  Cbor.writeRecord [Cbor.writeHead 0 (entryTypeIndex entry.ty), writeHash entry.hash,
    Cbor.writeHead 0 entry.size.toNat]

def readEntry : Reader Entry := Cbor.readRecord 3 fun bytes => do
  let ty ← readEntryType bytes
  let hash ← readHash ty.2
  let size ← Cbor.readHead 0 hash.2
  .ok (⟨ty.1, hash.1, UInt64.ofNat size.1⟩, size.2)

theorem reads_entry (entry : Entry) : Reads readEntry (writeEntry entry) entry := by
  refine @Cbor.reads_record _ _ [_, _, _] _ (fun rest => ?_) (by simp)
  have hsize := entry.size.toNat_lt
  simp only [List.flatten_cons, List.flatten_nil, List.append_nil, List.append_assoc]
  refine bind_eq_ok.mpr ⟨_, reads_entryType entry.ty _, ?_⟩
  refine bind_eq_ok.mpr ⟨_, reads_hash entry.hash _, ?_⟩
  refine bind_eq_ok.mpr ⟨_, Cbor.reads_head (by omega) (by omega) rest, ?_⟩
  simp

/-! ### Directories, archives and sidecars -/

/-- The map has keys that are encoded, and fewer entries than a head can count. -/
structure TextKeys {β : Type} (m : SortedMap String β) : Prop where
  length : m.entries.length < 256 ^ 8
  keys : ∀ entry ∈ m.entries, (Utf8.encode entry.1).length < 256 ^ 8

instance {β : Type} (m : SortedMap String β) : Decidable (TextKeys m) :=
  decidable_of_iff (m.entries.length < 256 ^ 8 ∧
    ∀ entry ∈ m.entries, (Utf8.encode entry.1).length < 256 ^ 8)
    ⟨fun h => ⟨h.1, h.2⟩, fun h => ⟨h.length, h.keys⟩⟩

def writeDirectory (directory : Directory) : Bytes :=
  Cbor.writeRecord [Cbor.writeHead 0 0, Cbor.writeMap Cbor.writeText writeEntry directory.entries]

def readDirectory : Reader Directory := Cbor.readRecord 2 fun bytes => do
  let version ← readVersion bytes
  let entries ← Cbor.readMap Cbor.readText readEntry version.2
  .ok (⟨version.1, entries.1⟩, entries.2)

theorem reads_directory {directory : Directory} (h : TextKeys directory.entries) :
    Reads readDirectory (writeDirectory directory) directory := by
  refine @Cbor.reads_record _ _ [_, _] _ (fun rest => ?_) (by simp)
  simp only [List.flatten_cons, List.flatten_nil, List.append_nil, List.append_assoc]
  refine bind_eq_ok.mpr ⟨_, reads_version directory.version _, ?_⟩
  refine bind_eq_ok.mpr ⟨_, Cbor.reads_map (fun entry hentry => ?_) h.length rest, rfl⟩
  exact ⟨Cbor.reads_text (h.keys entry hentry), reads_entry entry.2⟩

def writeArchive (archive : Archive) : Bytes :=
  Cbor.writeRecord [Cbor.writeHead 0 0, writeHash archive.root,
    Cbor.writeMap writeHash (Cbor.writeArray writeByte) archive.files]

def readArchive : Reader Archive := Cbor.readRecord 3 fun bytes => do
  let version ← readVersion bytes
  let root ← readHash version.2
  let files ← Cbor.readMap readHash (Cbor.readArray readByte) root.2
  .ok (⟨version.1, root.1, files.1⟩, files.2)

theorem reads_archive {archive : Archive} (h : archive.files.entries.length < 256 ^ 8)
    (hblobs : ∀ file ∈ archive.files.entries, file.2.length < 256 ^ 8) :
    Reads readArchive (writeArchive archive) archive := by
  refine @Cbor.reads_record _ _ [_, _, _] _ (fun rest => ?_) (by simp)
  simp only [List.flatten_cons, List.flatten_nil, List.append_nil, List.append_assoc]
  refine bind_eq_ok.mpr ⟨_, reads_version archive.version _, ?_⟩
  refine bind_eq_ok.mpr ⟨_, reads_hash archive.root _, ?_⟩
  refine bind_eq_ok.mpr ⟨_, Cbor.reads_map (fun file hfile => ?_) h rest, rfl⟩
  exact ⟨reads_hash file.1, Cbor.reads_array (fun byte _ => reads_byte byte) (hblobs file hfile)⟩

def writeBinding (binding : CarbonadoBindingCbor) : Bytes :=
  Cbor.writeRecord [Cbor.writeText binding.baoRoot, writeByte binding.format,
    Cbor.writeText binding.carbonadoPath]

def readBinding : Reader CarbonadoBindingCbor := Cbor.readRecord 3 fun bytes => do
  let baoRoot ← Cbor.readText bytes
  let format ← readByte baoRoot.2
  let carbonadoPath ← Cbor.readText format.2
  .ok (⟨baoRoot.1, format.1, carbonadoPath.1⟩, carbonadoPath.2)

theorem reads_binding {binding : CarbonadoBindingCbor}
    (hroot : (Utf8.encode binding.baoRoot).length < 256 ^ 8)
    (hpath : (Utf8.encode binding.carbonadoPath).length < 256 ^ 8) :
    Reads readBinding (writeBinding binding) binding := by
  refine @Cbor.reads_record _ _ [_, _, _] _ (fun rest => ?_) (by simp)
  simp only [List.flatten_cons, List.flatten_nil, List.append_nil, List.append_assoc]
  refine bind_eq_ok.mpr ⟨_, Cbor.reads_text hroot _, ?_⟩
  refine bind_eq_ok.mpr ⟨_, reads_byte binding.format _, ?_⟩
  exact bind_eq_ok.mpr ⟨_, Cbor.reads_text hpath rest, rfl⟩

def writeSidecar (bindings : SortedMap String CarbonadoBindingCbor) : Bytes :=
  Cbor.writeMap Cbor.writeText writeBinding bindings

def readSidecar : Reader (SortedMap String CarbonadoBindingCbor) :=
  Cbor.readMap Cbor.readText readBinding

theorem reads_sidecar {bindings : SortedMap String CarbonadoBindingCbor} (h : TextKeys bindings)
    (hvalues : ∀ entry ∈ bindings.entries, (Utf8.encode entry.2.baoRoot).length < 256 ^ 8 ∧
      (Utf8.encode entry.2.carbonadoPath).length < 256 ^ 8) :
    Reads readSidecar (writeSidecar bindings) bindings :=
  Cbor.reads_map (fun entry hentry => ⟨Cbor.reads_text (h.keys entry hentry),
    reads_binding (hvalues entry hentry).1 (hvalues entry hentry).2⟩) h.length

/-! ### The classes of a manifest -/

@[reducible] def directoryCodec : Minicbor Directory := minicbor writeDirectory readDirectory

@[reducible] def archiveCodec : Minicbor Archive := minicbor writeArchive readArchive

@[reducible] def sidecarCodec : Minicbor (SortedMap String CarbonadoBindingCbor) :=
  minicbor writeSidecar readSidecar

@[reducible] def blake3 : Blake3 :=
  ⟨fun bytes => ⟨Lord.Blake3.hash bytes, Lord.Blake3.length_hash bytes⟩⟩

@[reducible] def bech32m : Bech32 := ⟨Lord.Bech32.bytesToFes, Lord.Bech32.encode⟩

end Lord.Storage.CaseyCodec
