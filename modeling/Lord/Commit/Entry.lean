import Lord.Lib.Bincode

/-! Entries of the breccia log and their blobs. -/

namespace Lord.Commit

open Bincode

/-- Entry of a timestamped commitment (v1). -/
structure CommitmentEntry where
  baoRoot : Bytes32
  otsOrderKey : Bytes
  timestampedAt : UInt64
  carbonadoPath : String
  deriving Repr, DecidableEq

/-- Post-mine entry (v2) with Bitcoin attestation metadata. -/
structure CommitmentEntryV2 where
  baoRoot : Bytes32
  otsOrderKey : Bytes
  timestampedAt : UInt64
  carbonadoPath : String
  attestationHeight : UInt32
  attestationTxid : String
  replicationTarget : UInt32
  deriving Repr, DecidableEq

inductive BrecciaRecord where
  | v1 (entry : CommitmentEntry)
  | v2 (entry : CommitmentEntryV2)
  deriving Repr, DecidableEq

def BrecciaRecord.baoRoot : BrecciaRecord → Bytes32
  | v1 entry => entry.baoRoot
  | v2 entry => entry.baoRoot

/-- `LBV2`. -/
def brecciaEntryV2Magic : Bytes := [0x4c, 0x42, 0x56, 0x32]

/-- The fields that both versions start with. -/
def encodeFields (baoRoot : Bytes32) (otsOrderKey : Bytes) (timestampedAt : UInt64)
    (carbonadoPath : String) : Bytes :=
  baoRoot.val ++ (writeVec otsOrderKey ++ (LittleEndian.encode 8 timestampedAt.toNat ++
    writeString carbonadoPath))

/-- Serialize a v1 commitment entry for breccia append (bincode). -/
def encodeEntry (entry : CommitmentEntry) : Bytes :=
  encodeFields entry.baoRoot entry.otsOrderKey entry.timestampedAt entry.carbonadoPath

/-- Serialize a v2 commitment entry for breccia append (tagged bincode). -/
def encodeEntryV2 (entry : CommitmentEntryV2) : Bytes :=
  brecciaEntryV2Magic ++ (encodeFields entry.baoRoot entry.otsOrderKey entry.timestampedAt
      entry.carbonadoPath ++
    (LittleEndian.encode 4 entry.attestationHeight.toNat ++ (writeString entry.attestationTxid ++
      LittleEndian.encode 4 entry.replicationTarget.toNat)))

def readFields : Reader CommitmentEntry := fun bytes => do
  let baoRoot ← readArray32 bytes
  let otsOrderKey ← readVec baoRoot.2
  let timestampedAt ← readUInt 8 otsOrderKey.2
  let carbonadoPath ← readString timestampedAt.2
  .ok (⟨baoRoot.1, otsOrderKey.1, UInt64.ofNat timestampedAt.1, carbonadoPath.1⟩, carbonadoPath.2)

/-- Deserialize a v1 commitment entry; bytes behind it are ignored. -/
def decodeEntry (bytes : Bytes) : Result CommitmentEntry := do
  let entry ← readFields bytes
  .ok entry.1

/-- Deserialize a v2 commitment entry; bytes behind it are ignored. -/
def decodeEntryV2 (bytes : Bytes) : Result CommitmentEntryV2 := do
  let fields ← readFields bytes
  let attestationHeight ← readUInt 4 fields.2
  let attestationTxid ← readString attestationHeight.2
  let replicationTarget ← readUInt 4 attestationTxid.2
  .ok { baoRoot := fields.1.baoRoot, otsOrderKey := fields.1.otsOrderKey,
        timestampedAt := fields.1.timestampedAt, carbonadoPath := fields.1.carbonadoPath,
        attestationHeight := UInt32.ofNat attestationHeight.1,
        attestationTxid := attestationTxid.1,
        replicationTarget := UInt32.ofNat replicationTarget.1 }

/-- Deserialize a commitment entry from breccia blob bytes (v1 or v2). -/
def decodeBrecciaBlob (bytes : Bytes) : Result BrecciaRecord :=
  if brecciaEntryV2Magic <+: bytes then do
    let entry ← decodeEntryV2 (bytes.drop brecciaEntryV2Magic.length)
    .ok (.v2 entry)
  else do
    let entry ← decodeEntry bytes
    .ok (.v1 entry)

theorem reads_fields {entry : CommitmentEntry} (hkey : entry.otsOrderKey.length < 256 ^ 8)
    (hpath : (Utf8.encode entry.carbonadoPath).length < 256 ^ 8) :
    Reads readFields (encodeEntry entry) entry := by
  intro rest
  have htime : entry.timestampedAt.toNat < 256 ^ 8 := entry.timestampedAt.toNat_lt
  simp only [encodeEntry, encodeFields, List.append_assoc]
  refine bind_eq_ok.mpr ⟨_, reads_array32 _ _, bind_eq_ok.mpr ⟨_, reads_vec hkey _,
    bind_eq_ok.mpr ⟨_, reads_uint htime _, bind_eq_ok.mpr ⟨_, reads_string hpath _, ?_⟩⟩⟩⟩
  simp

/-- The fields of a blob are shorter than the blob. -/
theorem length_encodeEntry_lt {entry : CommitmentEntry} {bound : Nat}
    (h : (encodeEntry entry).length < bound) :
    entry.otsOrderKey.length < bound ∧ (Utf8.encode entry.carbonadoPath).length < bound := by
  simp only [encodeEntry, encodeFields, Bincode.writeString, Bincode.writeVec,
    List.length_append] at h
  omega

theorem length_encodeEntryV2_lt {entry : CommitmentEntryV2} {bound : Nat}
    (h : (encodeEntryV2 entry).length < bound) :
    entry.otsOrderKey.length < bound ∧ (Utf8.encode entry.carbonadoPath).length < bound ∧
      (Utf8.encode entry.attestationTxid).length < bound := by
  simp only [encodeEntryV2, encodeFields, Bincode.writeString, Bincode.writeVec,
    List.length_append] at h
  omega

/-- A v1 entry reads back as itself, unless its root starts like the tag of a v2 blob. -/
theorem decodeBrecciaBlob_encodeEntry {entry : CommitmentEntry}
    (hkey : entry.otsOrderKey.length < 256 ^ 8)
    (hpath : (Utf8.encode entry.carbonadoPath).length < 256 ^ 8)
    (hroot : ¬brecciaEntryV2Magic <+: entry.baoRoot.val) :
    decodeBrecciaBlob (encodeEntry entry) = .ok (.v1 entry) := by
  have hfields := reads_fields hkey hpath []
  rw [List.append_nil] at hfields
  have hmagic : ¬brecciaEntryV2Magic <+: encodeEntry entry := by
    intro hbegin
    refine hroot (List.prefix_of_prefix_length_le hbegin (List.prefix_append _ _) ?_)
    rw [entry.baoRoot.property]
    decide
  rw [decodeBrecciaBlob, if_neg hmagic]
  exact bind_eq_ok.mpr ⟨entry, bind_eq_ok.mpr ⟨_, hfields, rfl⟩, rfl⟩

/-- A v2 entry reads back as itself. -/
theorem decodeBrecciaBlob_encodeEntryV2 {entry : CommitmentEntryV2}
    (hkey : entry.otsOrderKey.length < 256 ^ 8)
    (hpath : (Utf8.encode entry.carbonadoPath).length < 256 ^ 8)
    (htxid : (Utf8.encode entry.attestationTxid).length < 256 ^ 8) :
    decodeBrecciaBlob (encodeEntryV2 entry) = .ok (.v2 entry) := by
  have hheight : entry.attestationHeight.toNat < 256 ^ 4 := entry.attestationHeight.toNat_lt
  have htarget : entry.replicationTarget.toNat < 256 ^ 4 := entry.replicationTarget.toNat_lt
  have hfields := @reads_fields
    ⟨entry.baoRoot, entry.otsOrderKey, entry.timestampedAt, entry.carbonadoPath⟩ hkey hpath
  have hmagic : brecciaEntryV2Magic <+: encodeEntryV2 entry := List.prefix_append _ _
  have hlast := reads_uint htarget []
  rw [List.append_nil] at hlast
  rw [decodeBrecciaBlob, if_pos hmagic, encodeEntryV2, List.drop_left]
  refine bind_eq_ok.mpr ⟨entry, bind_eq_ok.mpr ⟨_, hfields _, bind_eq_ok.mpr ⟨_,
    reads_uint hheight _, bind_eq_ok.mpr ⟨_, reads_string htxid _, bind_eq_ok.mpr ⟨_, hlast,
      ?_⟩⟩⟩⟩, rfl⟩
  simp

end Lord.Commit
