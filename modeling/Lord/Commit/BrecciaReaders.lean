import Lord.Commit.LogRuns
import Lord.Storage.Migration

/-! The two readers of the breccia log.  The storage crate has a parser of its own, which knows the
first header version only and reads every blob as a v1 entry; the commit crate tells the versions
apart by their tag. -/

namespace Lord.Commit

open Storage Bincode

/-! ### The logs that appends leave -/

/-- A write that fails leaves no part of a header or a frame. -/
structure BrecciaEnv.LeavesNothing (env : BrecciaEnv) : Prop where
  writeHeader : ∀ fault, env.writeHeader = some fault → brecciaHeaderLen ≤ fault.written
  append : ∀ fault, env.append = some fault → fault.written = 0

/-- The log after appends of these records, with any failed ones between them. -/
inductive Produced (path : String) : Option Bytes → List BrecciaRecord → Prop
  | empty : Produced path none []
  | appended {log log' : Option Bytes} {records : List BrecciaRecord} {env : BrecciaEnv}
    {record : BrecciaRecord} : Produced path log records →
    appendRecord path env log record = (.ok (), log') → Produced path log' (records ++ [record])
  | failed {log log' : Option Bytes} {records : List BrecciaRecord} {env : BrecciaEnv}
    {record : BrecciaRecord} {err : Error} : Produced path log records → env.LeavesNothing →
    appendRecord path env log record = (.error err, log') → Produced path log' records

/-- The bytes of the log; one that does not exist yet reads as one without a blob. -/
def headedLog (log : Option Bytes) : Bytes := log.getD (brecciaHeader brecciaHeaderVersionV1)

theorem openOrCreateBreccia_headed {path : String} {env : BrecciaEnv} {log opened : Option Bytes}
    {result : Result Unit} (hrun : openOrCreateBreccia path env log = (result, opened))
    (h : result = .ok () ∨ env.LeavesNothing) :
    headedLog opened = headedLog log ∧ (result = .ok () → opened = some (headedLog log)) := by
  cases log with
  | some bytes =>
    obtain ⟨-, rfl⟩ := Prod.mk.inj hrun
    exact ⟨rfl, fun _ => rfl⟩
  | none =>
    unfold openOrCreateBreccia createBreccia at hrun
    cases hdir : env.createDir with
    | error err =>
      simp only [hdir] at hrun
      obtain ⟨rfl, rfl⟩ := Prod.mk.inj hrun
      exact ⟨rfl, by rintro ⟨⟩⟩
    | ok _ =>
      cases hfile : env.openFile with
      | error err =>
        simp only [hdir, hfile, Result.context] at hrun
        obtain ⟨rfl, rfl⟩ := Prod.mk.inj hrun
        exact ⟨rfl, by rintro ⟨⟩⟩
      | ok _ =>
        simp only [hdir, hfile, Result.context] at hrun
        obtain ⟨rfl, rfl⟩ := Prod.mk.inj hrun
        have hwritten : (writeAll env.writeHeader (brecciaHeader brecciaHeaderVersionV1)).2 =
            brecciaHeader brecciaHeaderVersionV1 := by
          rcases h with hok | hleaves
          · exact writeAll_ok hok
          · cases hfault : env.writeHeader with
            | none => rfl
            | some fault =>
              have hle := hleaves.writeHeader fault hfault
              apply List.take_of_length_le
              rwa [length_brecciaHeader]
        rw [hwritten]
        exact ⟨rfl, fun _ => rfl⟩

/-- An append may bump the header; a successful one adds its frame, and a failed one nothing. -/
theorem appendBreccia_cases {path : String} {env : BrecciaEnv} {log log' : Option Bytes}
    {bump : Bool} {blob : Bytes} {message : String} {result : Result Unit}
    (hrun : appendBreccia path env log bump blob message = (result, log'))
    (h : result = .ok () ∨ env.LeavesNothing) :
    ∃ bytes, (bytes = headedLog log ∨ bump = true ∧ bytes = (ensureV2Header env (headedLog log)).2) ∧
      ((∃ err, result = .error err) ∧ headedLog log' = bytes ∨
        result = .ok () ∧ blob.length ≤ maxBrecciaBlobLen ∧
          (bump = true → bytes = (ensureV2Header env (headedLog log)).2 ∧ env.bumpHeader = none) ∧
          headedLog log' = bytes ++ brecciaFrame blob) := by
  unfold appendBreccia at hrun
  rcases hopen : openOrCreateBreccia path env log with ⟨opening, opened⟩
  rw [hopen] at hrun
  cases opening with
  | error err =>
    obtain ⟨rfl, rfl⟩ := Prod.mk.inj hrun
    have hsame := (openOrCreateBreccia_headed hopen (h.imp_left nofun)).1
    exact ⟨headedLog log, .inl rfl, .inl ⟨⟨err, rfl⟩, hsame⟩⟩
  | ok _ =>
    obtain rfl := (openOrCreateBreccia_headed hopen (.inl rfl)).2 rfl
    simp only [Option.getD_some] at hrun
    rcases hbumped : (if bump then ensureV2Header env (headedLog log) else (.ok (), headedLog log))
      with ⟨bumping, bytes⟩
    rw [hbumped] at hrun
    have hbytes : (bytes = headedLog log ∨
        bump = true ∧ bytes = (ensureV2Header env (headedLog log)).2) ∧
        (bumping = .ok () → bump = true →
          bytes = (ensureV2Header env (headedLog log)).2 ∧ env.bumpHeader = none) := by
      cases bump with
      | false =>
        obtain ⟨-, rfl⟩ := Prod.mk.inj hbumped
        exact ⟨.inl rfl, nofun⟩
      | true =>
        have hbytes : bytes = (ensureV2Header env (headedLog log)).2 := congrArg Prod.snd hbumped.symm
        refine ⟨.inr ⟨rfl, hbytes⟩, fun hok _ => ⟨hbytes, ?_⟩⟩
        cases hfault : env.bumpHeader with
        | none => rfl
        | some fault =>
          have hfirst : (ensureV2Header env (headedLog log)).1 = bumping := congrArg Prod.fst hbumped
          rw [hok] at hfirst
          simp only [ensureV2Header, hfault, writeAll] at hfirst
          cases hfirst
    refine ⟨bytes, hbytes.1, ?_⟩
    cases bumping with
    | error err =>
      obtain ⟨rfl, rfl⟩ := Prod.mk.inj hrun
      exact .inl ⟨⟨err, rfl⟩, rfl⟩
    | ok _ =>
      dsimp only [appendBlob] at hrun
      by_cases hlen : maxBrecciaBlobLen < blob.length
      · rw [if_pos hlen] at hrun
        obtain ⟨rfl, rfl⟩ := Prod.mk.inj hrun
        exact .inl ⟨⟨_, rfl⟩, rfl⟩
      rw [if_neg hlen] at hrun
      obtain ⟨rfl, rfl⟩ := Prod.mk.inj hrun
      cases hfault : env.append with
      | none => exact .inr ⟨rfl, by omega, hbytes.2 rfl, rfl⟩
      | some fault =>
        have hleaves := h.resolve_left (by simp [hfault, writeAll, Result.context])
        refine .inl ⟨⟨_, rfl⟩, ?_⟩
        simp only [headedLog, writeAll, hleaves.append fault hfault, List.take_zero,
          List.append_nil, Option.getD_some]

/-- The log has a header of this version and the frames of these records, and a v2 record is behind
a v2 header. -/
structure HoldsLog (log : Option Bytes) (version : Nat) (records : List BrecciaRecord) : Prop where
  version_cases : version = brecciaHeaderVersionV1 ∨ version = brecciaHeaderVersionV2
  bytes : headedLog log = brecciaHeader version ++ (records.map encodeRecord).flatMap brecciaFrame
  length_le : ∀ record ∈ records, (encodeRecord record).length ≤ maxBrecciaBlobLen
  version_of_v2 : ∀ entry, .v2 entry ∈ records → version = brecciaHeaderVersionV2

theorem HoldsLog.empty : HoldsLog none brecciaHeaderVersionV1 [] :=
  ⟨.inl rfl, by simp [headedLog], nofun, nofun⟩

/-- The append of a record is that of its blob, and bumps the header for a v2 record. -/
theorem appendRecord_eq (path : String) (env : BrecciaEnv) (log : Option Bytes)
    (record : BrecciaRecord) :
    ∃ bump message, appendRecord path env log record =
        appendBreccia path env log bump (encodeRecord record) message ∧
      (bump = true ↔ ∃ entry, record = .v2 entry) := by
  cases record with
  | v1 entry => exact ⟨false, "failed to append breccia entry", rfl, by simp⟩
  | v2 entry => exact ⟨true, "failed to append breccia v2 entry", rfl, by simp⟩

/-- A successful append adds its record, behind a header that it may have bumped. -/
theorem HoldsLog.appended {path : String} {env : BrecciaEnv} {log log' : Option Bytes}
    {version : Nat} {records : List BrecciaRecord} (hlog : HoldsLog log version records)
    {record : BrecciaRecord} (hrun : appendRecord path env log record = (.ok (), log')) :
    ∃ version', HoldsLog log' version' (records ++ [record]) := by
  obtain ⟨bump, message, heq, hbump⟩ := appendRecord_eq path env log record
  rw [heq] at hrun
  obtain ⟨bytes, hbytes, ⟨⟨err, herr⟩, -⟩ | ⟨-, hlen, hbumped, hlog'⟩⟩ :=
    appendBreccia_cases hrun (.inl rfl)
  · cases herr
  obtain ⟨version', hcases, hkept, hv2, hheader⟩ : ∃ version',
      (version' = brecciaHeaderVersionV1 ∨ version' = brecciaHeaderVersionV2) ∧
      (version = brecciaHeaderVersionV2 → version' = brecciaHeaderVersionV2) ∧
      (bump = true → version' = brecciaHeaderVersionV2) ∧
      bytes = brecciaHeader version' ++ (records.map encodeRecord).flatMap brecciaFrame := by
    cases bump with
    | false =>
      exact ⟨version, hlog.version_cases, id, nofun, (hbytes.resolve_right nofun).trans hlog.bytes⟩
    | true =>
      obtain ⟨hbytes, hnone⟩ := hbumped rfl
      obtain ⟨version', hcases, hv2, hheader⟩ := ensureV2Header_bytes env hlog.version_cases
        ((records.map encodeRecord).flatMap brecciaFrame)
      rw [← hlog.bytes, ← hbytes] at hheader
      exact ⟨version', hcases, fun h => hv2 (.inl h), fun _ => hv2 (.inr hnone), hheader⟩
  refine ⟨version', hcases, by rw [hlog', hheader]; simp, fun other hother => ?_,
    fun entry hentry => ?_⟩
  · rcases List.mem_append.mp hother with hother | hother
    · exact hlog.length_le other hother
    · rwa [List.mem_singleton.mp hother]
  · rcases List.mem_append.mp hentry with hentry | hentry
    · exact hkept (hlog.version_of_v2 entry hentry)
    · exact hv2 (hbump.mpr ⟨entry, (List.mem_singleton.mp hentry).symm⟩)

/-- A failed append leaves the records, and at most a bumped header. -/
theorem HoldsLog.failed {path : String} {env : BrecciaEnv} {log log' : Option Bytes}
    {version : Nat} {records : List BrecciaRecord} (hlog : HoldsLog log version records)
    {record : BrecciaRecord} {err : Error} (hleaves : env.LeavesNothing)
    (hrun : appendRecord path env log record = (.error err, log')) :
    ∃ version', HoldsLog log' version' records := by
  obtain ⟨bump, message, heq, -⟩ := appendRecord_eq path env log record
  rw [heq] at hrun
  obtain ⟨bytes, hbytes, ⟨-, hlog'⟩ | ⟨hok, -⟩⟩ := appendBreccia_cases hrun (.inr hleaves)
  · obtain rfl | ⟨-, hbytes⟩ := hbytes
    · exact ⟨version, hlog.version_cases, hlog'.trans hlog.bytes, hlog.length_le, hlog.version_of_v2⟩
    · obtain ⟨version', hcases, hv2, hheader⟩ := ensureV2Header_bytes env hlog.version_cases
        ((records.map encodeRecord).flatMap brecciaFrame)
      rw [← hlog.bytes, ← hbytes] at hheader
      exact ⟨version', hcases, hlog'.trans hheader, hlog.length_le,
        fun entry hentry => hv2 (.inl (hlog.version_of_v2 entry hentry))⟩
  · cases hok

/-- Every run of appends leaves a log of whole frames. -/
theorem Produced.holdsLog {path : String} {log : Option Bytes} {records : List BrecciaRecord}
    (h : Produced path log records) : ∃ version, HoldsLog log version records := by
  induction h with
  | empty => exact ⟨_, HoldsLog.empty⟩
  | appended _ hrun ih =>
    obtain ⟨version, hlog⟩ := ih
    exact hlog.appended hrun
  | failed _ hleaves hrun ih =>
    obtain ⟨version, hlog⟩ := ih
    exact hlog.failed hleaves hrun

/-! ### What the readers make of it -/

/-- The version in the header of the log. -/
def headerVersion (log : Option Bytes) : Nat :=
  LittleEndian.decode (((headedLog log).drop brecciaMagic.length).take 4)

theorem HoldsLog.headerVersion_eq {log : Option Bytes} {version : Nat}
    {records : List BrecciaRecord} (h : HoldsLog log version records) :
    headerVersion log = version := by
  rw [headerVersion, h.bytes, version_brecciaHeader h.version_cases]

theorem HoldsLog.holdsBlobs {log : Option Bytes} {version : Nat} {records : List BrecciaRecord}
    (h : HoldsLog log version records) :
    HoldsBlobs (some (headedLog log)) (records.map encodeRecord) := by
  refine .inr ⟨version, h.version_cases, congrArg some h.bytes, fun blob hblob => ?_⟩
  obtain ⟨record, hrecord, rfl⟩ := List.mem_map.mp hblob
  exact h.length_le record hrecord

/-- The reader of the commit crate takes the blobs of the records. -/
theorem HoldsLog.readAllBlobs {log : Option Bytes} {version : Nat} {records : List BrecciaRecord}
    (h : HoldsLog log version records) (path : String) :
    readAllBlobs path log = .ok (records.map encodeRecord) := by
  have hread := h.holdsBlobs.readAllBlobs path
  cases log with
  | some bytes => exact hread
  | none =>
    have hempty : HoldsBlobs (some (headedLog none)) [] := HoldsLog.empty.holdsBlobs
    rw [hempty.readAllBlobs path] at hread
    exact hread

/-- The reader of the storage crate takes the v1 header only, and then the blobs that read as v1
entries. -/
theorem HoldsLog.loadBrecciaTimestamps {files : MigrationFiles} {version : Nat}
    {records : List BrecciaRecord} (h : HoldsLog files.breccia version records) :
    (version = brecciaHeaderVersionV1 → loadBrecciaTimestamps files =
      .ok ((records.map encodeRecord).filterMap fun blob => (decodeEntry blob).toOption)) ∧
    (version = brecciaHeaderVersionV2 → ∃ err, loadBrecciaTimestamps files = .error err) := by
  have hversion := h.headerVersion_eq
  cases hfile : files.breccia with
  | none =>
    rw [hfile] at h hversion
    have hread : Except.ok [] = Except.ok (records.map encodeRecord) := h.readAllBlobs ""
    unfold Storage.loadBrecciaTimestamps
    simp only [hfile, ← Except.ok.inj hread]
    exact ⟨fun _ => rfl, fun hv2 => absurd (hversion.trans hv2) (by decide)⟩
  | some bytes =>
    rw [hfile] at h
    have hbytes : bytes = brecciaHeader version ++ (records.map encodeRecord).flatMap brecciaFrame :=
      h.bytes
    have hlen : bytes.length =
        12 + ((records.map encodeRecord).flatMap brecciaFrame).length := by
      rw [hbytes, List.length_append, length_brecciaHeader, brecciaHeaderLen]
    have hmagic : bytes.take brecciaMagic.length = brecciaMagic := by
      rw [hbytes, take_brecciaHeader]
    have hdecoded : LittleEndian.decode ((bytes.drop brecciaMagic.length).take 4) = version := by
      rw [hbytes, version_brecciaHeader h.version_cases]
    have hdrop : bytes.drop brecciaHeaderLen = (records.map encodeRecord).flatMap brecciaFrame := by
      rw [hbytes, drop_brecciaHeader]
    unfold Storage.loadBrecciaTimestamps
    simp only [hfile, hmagic, hdecoded, hdrop]
    rw [if_neg (by simp [brecciaMagic]; omega), if_neg (by simp),
      if_neg (by simp only [brecciaHeaderLen]; omega)]
    constructor
    · rintro rfl
      have hblobs : ∀ blob ∈ records.map encodeRecord, blob.length ≤ maxBrecciaBlobLen := by
        intro blob hblob
        obtain ⟨record, hrecord, rfl⟩ := List.mem_map.mp hblob
        exact h.length_le record hrecord
      have hcount : (records.map encodeRecord).length ≤ bytes.length := by
        have hflat := length_le_flatMap_brecciaFrame (records.map encodeRecord)
        omega
      rw [if_neg (by simp), readBlobs_frames hblobs hcount]
    · rintro rfl
      rw [if_pos (by decide)]
      exact ⟨_, rfl⟩

/-! ### Agreement of the readers -/

def BrecciaRecord.timestampedAt : BrecciaRecord → UInt64
  | v1 entry => entry.timestampedAt
  | v2 entry => entry.timestampedAt

/-- The time of the last record of the root. -/
def recordTimestamp (records : List BrecciaRecord) (baoRoot : Bytes32) : Option UInt64 :=
  (records.reverse.find? fun record => record.baoRoot = baoRoot).map BrecciaRecord.timestampedAt

/-- Both readers read the log, with the same times for the same roots. -/
def ReadersAgree (files : MigrationFiles) (dir : DataDir) : Prop :=
  ∃ entries records, Storage.loadBrecciaTimestamps files = .ok entries ∧
    readBrecciaRecords dir = .ok records ∧
    ∀ baoRoot, brecciaTimestamp entries baoRoot = recordTimestamp records baoRoot

theorem decodeEntry_encodeEntry {entry : CommitmentEntry} (h : (BrecciaRecord.v1 entry).Sized) :
    decodeEntry (encodeEntry entry) = .ok entry := by
  have hread := reads_fields h.1 h.2 []
  rw [List.append_nil] at hread
  exact bind_eq_ok.mpr ⟨_, hread, rfl⟩

theorem brecciaTimestamp_isSome {entries : List CommitmentEntry} {baoRoot : Bytes32} :
    (brecciaTimestamp entries baoRoot).isSome = true ↔ ∃ entry ∈ entries, entry.baoRoot = baoRoot := by
  simp [brecciaTimestamp]

theorem recordTimestamp_isSome {records : List BrecciaRecord} {baoRoot : Bytes32} :
    (recordTimestamp records baoRoot).isSome = true ↔
      ∃ record ∈ records, record.baoRoot = baoRoot := by
  simp [recordTimestamp]

theorem recordTimestamp_map_v1 (entries : List CommitmentEntry) (baoRoot : Bytes32) :
    recordTimestamp (entries.map .v1) baoRoot = brecciaTimestamp entries baoRoot := by
  rw [recordTimestamp, brecciaTimestamp, ← List.map_reverse, List.find?_map, Option.map_map]
  rfl

/-- Behind a v1 header every record is a v1 one. -/
theorem HoldsLog.exists_entries {log : Option Bytes} {records : List BrecciaRecord}
    (h : HoldsLog log brecciaHeaderVersionV1 records) :
    ∃ entries : List CommitmentEntry, records = entries.map .v1 := by
  have hall : ∀ record ∈ records, ∃ entry, BrecciaRecord.v1 entry = record := by
    intro record hrecord
    cases record with
    | v1 entry => exact ⟨entry, rfl⟩
    | v2 entry => exact absurd (h.version_of_v2 entry hrecord) (by decide)
  have hrange : records ∈ Set.range (List.map BrecciaRecord.v1) := by
    rw [Set.range_list_map]
    exact hall
  obtain ⟨entries, rfl⟩ := hrange
  exact ⟨entries, rfl⟩

/-- The v1 entries of a log all read back through the reader of the storage crate. -/
theorem filterMap_decodeEntry {entries : List CommitmentEntry}
    (h : ∀ entry ∈ entries, (BrecciaRecord.v1 entry).Sized) :
    ((entries.map BrecciaRecord.v1).map encodeRecord).filterMap
      (fun blob => (decodeEntry blob).toOption) = entries := by
  induction entries with
  | nil => rfl
  | cons entry rest ih =>
    have hfirst : decodeEntry (encodeRecord (.v1 entry)) = .ok entry :=
      decodeEntry_encodeEntry (h entry (by simp))
    rw [List.map_cons, List.map_cons, List.filterMap_cons, hfirst]
    exact congrArg (entry :: ·) (ih fun e he => h e (List.mem_cons_of_mem _ he))

theorem baoRoot_readFields {bytes : Bytes} {fields : CommitmentEntry × Bytes}
    (h : readFields bytes = .ok fields) : fields.1.baoRoot.val = bytes.take 32 := by
  obtain ⟨baoRoot, hroot, h⟩ := bind_eq_ok.mp h
  obtain ⟨otsOrderKey, -, h⟩ := bind_eq_ok.mp h
  obtain ⟨timestampedAt, -, h⟩ := bind_eq_ok.mp h
  obtain ⟨carbonadoPath, -, h⟩ := bind_eq_ok.mp h
  cases h
  unfold readArray32 at hroot
  split at hroot
  · cases hroot
  · cases hroot
    rfl

/-- What the tag makes of a mistagged entry: its root without the tag, and behind it the first bytes
of the length of its key. -/
theorem baoRoot_of_mistagged {entry : CommitmentEntry} {record : BrecciaRecord}
    (h : (BrecciaRecord.v1 entry).Mistagged)
    (hread : decodeBrecciaBlob (encodeEntry entry) = .ok record) :
    record.baoRoot.val =
      entry.baoRoot.val.drop 4 ++ LittleEndian.encode 4 entry.otsOrderKey.length := by
  have hbegin : brecciaEntryV2Magic <+: encodeEntry entry :=
    List.IsPrefix.trans h (List.prefix_append _ _)
  rw [decodeBrecciaBlob, if_pos hbegin] at hread
  obtain ⟨v2, hv2, hrecord⟩ := bind_eq_ok.mp hread
  obtain ⟨fields, hfields, hv2⟩ := bind_eq_ok.mp hv2
  have hroot : record.baoRoot = fields.1.baoRoot := by
    obtain ⟨attestationHeight, -, hv2⟩ := bind_eq_ok.mp hv2
    obtain ⟨attestationTxid, -, hv2⟩ := bind_eq_ok.mp hv2
    obtain ⟨replicationTarget, -, hv2⟩ := bind_eq_ok.mp hv2
    cases hv2
    cases hrecord
    rfl
  have hlen := entry.baoRoot.property
  have hkey : (writeVec entry.otsOrderKey).take 4 =
      LittleEndian.encode 4 entry.otsOrderKey.length := by
    rw [writeVec, List.take_append_of_le_length (by simp), LittleEndian.take_encode (by omega)]
  calc record.baoRoot.val
      = ((encodeEntry entry).drop brecciaEntryV2Magic.length).take 32 := by
        rw [hroot, baoRoot_readFields hfields]
    _ = (entry.baoRoot.val.drop 4 ++ (writeVec entry.otsOrderKey ++
          (LittleEndian.encode 8 entry.timestampedAt.toNat ++
            writeString entry.carbonadoPath))).take 32 := by
        rw [encodeEntry, encodeFields, List.drop_append_of_le_length (by rw [hlen]; decide)]
        rfl
    _ = entry.baoRoot.val.drop 4 ++ LittleEndian.encode 4 entry.otsOrderKey.length := by
        rw [List.take_append, List.take_of_length_le (by rw [List.length_drop, hlen]; omega),
          List.length_drop, hlen, List.take_append_of_le_length (by simp [writeVec]; omega), hkey]

/-- Where the readers agree every mistagged entry is the shifted root of another one. -/
theorem exists_shifted {entries : List CommitmentEntry} {records : List BrecciaRecord}
    (hread : (entries.map encodeEntry).mapM decodeBrecciaBlob = .ok records)
    (hsized : ∀ entry ∈ entries, (BrecciaRecord.v1 entry).Sized)
    (hagree : ∀ baoRoot, brecciaTimestamp entries baoRoot = recordTimestamp records baoRoot)
    {entry : CommitmentEntry} (hentry : entry ∈ entries) (htag : (BrecciaRecord.v1 entry).Mistagged) :
    ∃ other ∈ entries, (BrecciaRecord.v1 other).Mistagged ∧
      entry.baoRoot.val =
        other.baoRoot.val.drop 4 ++ LittleEndian.encode 4 other.otsOrderKey.length := by
  have hsome : (recordTimestamp records entry.baoRoot).isSome = true := by
    rw [← hagree]
    exact brecciaTimestamp_isSome.mpr ⟨entry, hentry, rfl⟩
  obtain ⟨record, hrecord, hroot⟩ := recordTimestamp_isSome.mp hsome
  obtain ⟨blob, hblob, hdecode⟩ := mem_of_mapM_ok hread hrecord
  obtain ⟨other, hother, rfl⟩ := List.mem_map.mp hblob
  by_cases hmistagged : (BrecciaRecord.v1 other).Mistagged
  · exact ⟨other, hother, hmistagged, by rw [← hroot, baoRoot_of_mistagged hmistagged hdecode]⟩
  · have hplain := (decodeBrecciaBlob_encodeRecord (hsized other hother)).mpr hmistagged
    have hsame : BrecciaRecord.v1 other = record := Except.ok.inj (hplain.symm.trans hdecode)
    subst hsame
    have hother : other.baoRoot = entry.baoRoot := hroot
    refine absurd (?_ : brecciaEntryV2Magic <+: other.baoRoot.val) hmistagged
    rw [hother]
    exact htag

/-- The tag as often as it fits into a root. -/
theorem exists_tagged {entries : List CommitmentEntry} {records : List BrecciaRecord}
    (hread : (entries.map encodeEntry).mapM decodeBrecciaBlob = .ok records)
    (hsized : ∀ entry ∈ entries, (BrecciaRecord.v1 entry).Sized)
    (hagree : ∀ baoRoot, brecciaTimestamp entries baoRoot = recordTimestamp records baoRoot)
    {entry : CommitmentEntry} (hentry : entry ∈ entries) (htag : (BrecciaRecord.v1 entry).Mistagged)
    {count : Nat} (hcount : count ≤ 8) :
    ∃ other ∈ entries, (BrecciaRecord.v1 other).Mistagged ∧
      (List.replicate count brecciaEntryV2Magic).flatten <+: other.baoRoot.val := by
  induction count with
  | zero => exact ⟨entry, hentry, htag, List.nil_prefix⟩
  | succ count ih =>
    obtain ⟨last, hlast, hlastTag, hprefix⟩ := ih (by omega)
    obtain ⟨other, hother, hotherTag, hshift⟩ := exists_shifted hread hsized hagree hlast hlastTag
    have hlen := other.baoRoot.property
    have hinner : (List.replicate count brecciaEntryV2Magic).flatten <+:
        other.baoRoot.val.drop 4 := by
      apply List.prefix_of_prefix_length_le hprefix (hshift ▸ List.prefix_append _ _)
      simp only [List.length_flatten, List.map_replicate, List.sum_replicate, List.length_drop, hlen,
        brecciaEntryV2Magic, List.length_cons, List.length_nil, smul_eq_mul]
      omega
    have hfront : brecciaEntryV2Magic ++ other.baoRoot.val.drop 4 = other.baoRoot.val :=
      (List.prefix_append_drop hotherTag).symm
    refine ⟨other, hother, hotherTag, ?_⟩
    rw [List.replicate_succ, List.flatten_cons, ← hfront]
    exact (List.prefix_append_right_inj _).mpr hinner

/-- The readers disagree on a log of v1 entries that has a mistagged one: each takes its root for
that of the other, and only a key that is too long for a blob would close the circle. -/
theorem not_mistagged_of_agree {entries : List CommitmentEntry} {records : List BrecciaRecord}
    (hread : (entries.map encodeEntry).mapM decodeBrecciaBlob = .ok records)
    (hlen : ∀ entry ∈ entries, (encodeEntry entry).length ≤ maxBrecciaBlobLen)
    (hagree : ∀ baoRoot, brecciaTimestamp entries baoRoot = recordTimestamp records baoRoot)
    {entry : CommitmentEntry} (hentry : entry ∈ entries) : ¬(BrecciaRecord.v1 entry).Mistagged := by
  intro htag
  have hsized : ∀ entry ∈ entries, (BrecciaRecord.v1 entry).Sized := fun entry hentry =>
    BrecciaRecord.sized_of_length (hlen entry hentry)
  obtain ⟨last, hlast, hlastTag, hprefix⟩ :=
    exists_tagged hread hsized hagree hentry htag (Nat.le_refl 8)
  obtain ⟨other, hother, -, hshift⟩ := exists_shifted hread hsized hagree hlast hlastTag
  have hroot : (List.replicate 8 brecciaEntryV2Magic).flatten = last.baoRoot.val := by
    apply hprefix.eq_of_length
    rw [last.baoRoot.property]
    decide
  have hkeyLen : other.otsOrderKey.length < maxBrecciaBlobLen + 1 :=
    (length_encodeEntry_lt (Nat.lt_succ_of_le (hlen other hother))).1
  have hkey : brecciaEntryV2Magic = LittleEndian.encode 4 other.otsOrderKey.length := by
    have hdrop := congrArg (List.drop 28) (hroot.trans hshift)
    rw [List.drop_left' (by rw [List.length_drop, other.baoRoot.property])] at hdrop
    exact hdrop
  simp only [maxBrecciaBlobLen] at hkeyLen
  have hdecode : LittleEndian.decode (LittleEndian.encode 4 other.otsOrderKey.length) =
      other.otsOrderKey.length := LittleEndian.decode_encode (by omega)
  have hvalue : LittleEndian.decode brecciaEntryV2Magic = 844513868 := by decide
  rw [← hkey] at hdecode
  omega

/-- The readers agree on a log that appends leave exactly when its header is a v1 one and none of
its records is mistagged. -/
theorem readersAgree_iff (dir : DataDir) (files : MigrationFiles)
    (hfiles : files.breccia = dir.breccia) (records : List BrecciaRecord)
    (hproduced : Produced (brecciaPath dir) dir.breccia records) :
    ReadersAgree files dir ↔ headerVersion dir.breccia = brecciaHeaderVersionV1 ∧
      ∀ record ∈ records, ¬record.Mistagged := by
  obtain ⟨version, hlog⟩ := hproduced.holdsLog
  have hload := (hfiles ▸ hlog : HoldsLog files.breccia version records).loadBrecciaTimestamps
  have hblobs : readBrecciaRecords dir = (records.map encodeRecord).mapM decodeBrecciaBlob := by
    rw [readBrecciaRecords, hlog.readAllBlobs]
    rfl
  unfold ReadersAgree
  rw [hlog.headerVersion_eq, hblobs]
  rcases hlog.version_cases with rfl | rfl
  · -- Behind a v1 header both read the same entries, and differ over the tag.
    obtain ⟨entries, rfl⟩ := hlog.exists_entries
    have hlen : ∀ entry ∈ entries, (encodeEntry entry).length ≤ maxBrecciaBlobLen :=
      fun entry hentry => hlog.length_le _ (List.mem_map_of_mem hentry)
    have hsized : ∀ entry ∈ entries, (BrecciaRecord.v1 entry).Sized := fun entry hentry =>
      BrecciaRecord.sized_of_length (hlen entry hentry)
    have hmap : (entries.map BrecciaRecord.v1).map encodeRecord = entries.map encodeEntry := by
      rw [List.map_map]
      rfl
    rw [hload.1 rfl, filterMap_decodeEntry hsized]
    constructor
    · rintro ⟨read, decoded, hread, hdecoded, hagree⟩
      obtain rfl := Except.ok.inj hread
      rw [hmap] at hdecoded
      refine ⟨rfl, fun record hrecord => ?_⟩
      obtain ⟨entry, hentry, rfl⟩ := List.mem_map.mp hrecord
      exact not_mistagged_of_agree hdecoded hlen hagree hentry
    · rintro ⟨-, htags⟩
      refine ⟨entries, entries.map .v1, rfl, (mapM_decode_iff ?_).mpr htags,
        fun baoRoot => (recordTimestamp_map_v1 entries baoRoot).symm⟩
      intro record hrecord
      obtain ⟨entry, hentry, rfl⟩ := List.mem_map.mp hrecord
      exact hsized entry hentry
  · -- A v2 header stops the reader of the storage crate.
    obtain ⟨err, herr⟩ := hload.2 rfl
    refine iff_of_false ?_ fun h => absurd h.1 (by decide)
    rintro ⟨entries, -, hread, -⟩
    rw [herr] at hread
    cases hread

/-- The files that a migration finds in the directory. -/
def migrationFiles (dir : DataDir) : MigrationFiles where
  storagePath := dir.path ++ "/storage"
  brecciaPath := brecciaPath dir
  ots := dir.ots
  breccia := dir.breccia

theorem readersAgree_plain : ReadersAgree (migrationFiles loggedDir) loggedDir := by
  have hproduced : Produced (brecciaPath loggedDir) loggedDir.breccia [.v1 plainEntry] :=
    @Produced.appended _ none _ [] ⟨.ok (), .ok (), none, none, none⟩ _ .empty rfl
  refine (readersAgree_iff loggedDir _ rfl _ hproduced).mpr ⟨by decide, fun record hrecord => ?_⟩
  rw [List.mem_singleton.mp hrecord]
  show ¬brecciaEntryV2Magic <+: plainEntry.baoRoot.val
  decide

/-- The directory after the append of one upgraded entry. -/
def upgradedDir : DataDir :=
  { loggedDir with
    breccia := (appendRecord "/lord/breccia/global.breccia" ⟨.ok (), .ok (), none, none, none⟩ none
      (.v2 ⟨plainEntry.baoRoot, [], 5, "7.c12", 840000, "", 1⟩)).2 }

/-- The storage crate cannot read the log that the commit crate has appended an upgraded entry to. -/
theorem not_readersAgree_upgraded :
    ¬∀ (dir : DataDir) (records : List BrecciaRecord),
      Produced (brecciaPath dir) dir.breccia records → ReadersAgree (migrationFiles dir) dir := by
  intro h
  have hproduced : Produced (brecciaPath upgradedDir) upgradedDir.breccia
      [.v2 ⟨plainEntry.baoRoot, [], 5, "7.c12", 840000, "", 1⟩] :=
    @Produced.appended _ none _ [] ⟨.ok (), .ok (), none, none, none⟩ _ .empty rfl
  obtain ⟨entries, -, hload, -⟩ := h upgradedDir _ hproduced
  have hfails : (Storage.loadBrecciaTimestamps (migrationFiles upgradedDir)).isOk = false := by
    decide
  rw [hload] at hfails
  cases hfails

end Lord.Commit
