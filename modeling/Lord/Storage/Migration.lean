import Lord.Commit.BrecciaLog
import Lord.Commit.Entry
import Lord.Storage.OrderKeys

/-! The schema of the LMDB store and the migrations that opening an older store runs. -/

namespace Lord.Storage

open Ots

def schemaVersion : Nat := 4

/-- Pre-PR3 commitment metadata (schema version 1). -/
structure CommitmentMetaV1 where
  baoRoot : Bytes32
  carbonadoPath : String
  format : UInt8
  visibility : Visibility
  layout : Layout
  filepackFp : Option String
  createdAt : UInt64
  deriving Repr, DecidableEq

def CommitmentMeta.fromV1 (value : CommitmentMetaV1) : CommitmentMeta where
  baoRoot := value.baoRoot
  carbonadoPath := value.carbonadoPath
  format := value.format
  visibility := value.visibility
  layout := value.layout
  filepackFp := value.filepackFp
  createdAt := value.createdAt
  otsProofPath := none
  otsOrderKey := none
  timestampedAt := none

/-- Pre-PR3 schema version 2 commitment metadata (no `timestamped_at`). -/
structure CommitmentMetaV2 where
  baoRoot : Bytes32
  carbonadoPath : String
  format : UInt8
  visibility : Visibility
  layout : Layout
  filepackFp : Option String
  createdAt : UInt64
  otsProofPath : Option String
  otsOrderKey : Option Bytes
  deriving Repr, DecidableEq

def CommitmentMeta.fromV2 (value : CommitmentMetaV2) : CommitmentMeta where
  baoRoot := value.baoRoot
  carbonadoPath := value.carbonadoPath
  format := value.format
  visibility := value.visibility
  layout := value.layout
  filepackFp := value.filepackFp
  createdAt := value.createdAt
  otsProofPath := value.otsProofPath
  otsOrderKey := value.otsOrderKey
  timestampedAt := none

/-- `COMMITMENT_META` in the format of its rows, and `COMMITMENT_ORDER`. -/
inductive Tables where
  | v1 (rows : Table CommitmentMetaV1) (order : Table Bytes32)
  | v2 (rows : Table CommitmentMetaV2) (order : Table Bytes32)
  | current (store : StorageStore)

/-- The LMDB environment: the schema statistic and the tables. -/
structure Database where
  schema : Nat
  tables : Tables

/-- The files that a migration reads beside the environment. -/
structure MigrationFiles where
  /-- The storage directory as it is shown in messages. -/
  storagePath : String
  /-- The breccia log as it is shown in messages. -/
  brecciaPath : String
  ots : String → Option Bytes
  breccia : Option Bytes

/-- The commitment entries of a breccia log with a v1 header; blobs that are none are skipped. -/
def loadBrecciaTimestamps (files : MigrationFiles) : Result (List Commit.CommitmentEntry) :=
  match files.breccia with
  | none => .ok []
  | some bytes =>
    if bytes.length < Commit.brecciaMagic.length then
      .error "failed to fill whole buffer"
    else if bytes.take Commit.brecciaMagic.length ≠ Commit.brecciaMagic then
      .error s!"invalid breccia magic in `{files.brecciaPath}`"
    else if bytes.length < Commit.brecciaHeaderLen then
      .error "failed to fill whole buffer"
    else if LittleEndian.decode ((bytes.drop Commit.brecciaMagic.length).take 4) ≠
        Commit.brecciaHeaderVersionV1 then
      .error s!"unsupported breccia header version in `{files.brecciaPath}`"
    else
      match Commit.readBlobs bytes.length (bytes.drop Commit.brecciaHeaderLen) with
      | .error err => .error err
      | .ok blobs => .ok (blobs.filterMap fun blob => (Commit.decodeEntry blob).toOption)

/-- The time of a root in the log; later entries overwrite earlier ones. -/
def brecciaTimestamp (entries : List Commit.CommitmentEntry) (baoRoot : Bytes32) : Option UInt64 :=
  (entries.reverse.find? fun entry => entry.baoRoot = baoRoot).map
    Commit.CommitmentEntry.timestampedAt

/-- The root that a row is stored under has to be that of the row. -/
def checkMigrated (key : Bytes) (row : CommitmentMeta) : Result CommitmentMeta :=
  if key.length ≠ 32 then
    .error "invalid bao root key length during migration"
  else if key ≠ row.baoRoot.val then
    .error "commitment key does not match metadata bao_root during migration"
  else
    .ok row

/-- The rows in their new format over `COMMITMENT_ORDER` as it is. -/
def rewriteRows (rows : List CommitmentMeta) (order : Table Bytes32) : StorageStore :=
  rows.foldl StorageStore.putCommitment { StorageStore.empty with commitmentOrder := order }

def migrateV1ToV2 (db : Database) : Result Database :=
  match db.tables with
  | .v1 rows order => do
    let migrated ← rows.toList.mapM fun entry =>
      checkMigrated entry.1 (CommitmentMeta.fromV1 entry.2)
    .ok ⟨schemaVersion, .current (rewriteRows migrated order)⟩
  | _ => .error "failed to read CommitmentMeta v1 during migration"

/-- The row of a v2 row: a row with an order key gets the time of its breccia entry, or else that of
its creation. -/
def upgradeV2 (entries : List Commit.CommitmentEntry) (value : CommitmentMetaV2) : CommitmentMeta :=
  if value.otsOrderKey.isSome then
    { CommitmentMeta.fromV2 value with
      timestampedAt := some ((brecciaTimestamp entries value.baoRoot).getD value.createdAt) }
  else
    CommitmentMeta.fromV2 value

def migrateV2ToV3 (files : MigrationFiles) (db : Database) : Result Database := do
  let entries ← loadBrecciaTimestamps files
  match db.tables with
  | .v2 rows order => do
    let migrated ← rows.toList.mapM fun entry => checkMigrated entry.1 (upgradeV2 entries entry.2)
    .ok ⟨schemaVersion, .current (rewriteRows migrated order)⟩
  | _ => .error "failed to read CommitmentMeta v2 during migration"

inductive V4MigrationAction where
  | rekey (baoRoot : Bytes32) (oldKey newKey : Bytes)
  | clearStale (baoRoot : Bytes32) (oldKey : Bytes)
  deriving Repr, DecidableEq

/-- What the v4 migration does for a row: a missing or corrupt proof clears its key. -/
def v4Action [OtsCodec] (ots : String → Option Bytes) (row : CommitmentMeta) :
    Outcome (Option V4MigrationAction) :=
  match row.otsProofPath with
  | none => .ok none
  | some path =>
    let oldKey := row.otsOrderKey.getD []
    match ots path with
    | none => .ok (some (.clearStale row.baoRoot oldKey))
    | some proof =>
      match orderKeyFromProofBytes proof with
      | .ok newKey => .ok (some (.rekey row.baoRoot oldKey newKey))
      | .error (.err _) => .ok (some (.clearStale row.baoRoot oldKey))
      | .error (.panic message) => .error (.panic message)

/-- The actions for the rows, in their order. -/
def v4Actions [OtsCodec] (ots : String → Option Bytes) (rows : List CommitmentMeta) :
    Outcome (List V4MigrationAction) := do
  let actions ← rows.mapM (v4Action ots)
  .ok actions.reduceOption

/-- A key behind its length, as earlier schema-4 builds stored it. -/
def legacyLengthPrefixed (orderKey : Bytes) : Bytes := UInt8.ofNat orderKey.length :: orderKey

/-- The keys that `delete_stored_commitment_order_keys` deletes. -/
def storedKeys (orderKey : Bytes) : List Bytes :=
  if orderKey = [] then
    []
  else
    (encodeOrderKeyForLmdb orderKey).toOption.toList ++
      ((if orderKey.length ≤ maxOtsOrderPathLen then [legacyLengthPrefixed orderKey] else []) ++
        [orderKey])

/-- Delete a logical order key, including the encodings of earlier builds. -/
def StorageStore.deleteStoredCommitmentOrderKeys (s : StorageStore) (orderKey : Bytes) :
    StorageStore :=
  (storedKeys orderKey).foldl StorageStore.deleteOrderRow s

def applyV4Action (s : StorageStore) (action : V4MigrationAction) : Result StorageStore :=
  match action with
  | .rekey baoRoot oldKey newKey =>
    match s.getCommitment baoRoot with
    | none => .ok s
    | some row =>
      if row.otsOrderKey.isSome ∧ row.otsOrderKey ≠ some oldKey then
        .error (s!"COMMITMENT_META ots_order_key changed during v4 migration for " ++
          Hex.encode baoRoot.val)
      else
        let rekeyed := if row.otsOrderKey ≠ some newKey then
          s.putCommitment { row with otsOrderKey := some newKey } else s
        ((rekeyed.deleteStoredCommitmentOrderKeys oldKey).putCommitmentOrder newKey
          baoRoot).context s!"v4 migration put order key for {Hex.encode baoRoot.val}"
  | .clearStale baoRoot oldKey =>
    match s.getCommitment baoRoot with
    | none => .ok s
    | some row =>
      let cleared := if row.otsOrderKey.isSome then
        s.putCommitment { row with otsOrderKey := none } else s
      .ok (cleared.deleteStoredCommitmentOrderKeys oldKey)

/-- The rows of the store in the order of their roots. -/
def StorageStore.rows (s : StorageStore) : List CommitmentMeta := s.commitmentMeta.toList.map Prod.snd

/-- The write transaction of the v4 migration. -/
def applyV4Actions (s : StorageStore) (actions : List V4MigrationAction) : Result StorageStore :=
  actions.foldlM applyV4Action s

def migrateV3ToV4 [OtsCodec] (files : MigrationFiles) (db : Database) : Outcome Database :=
  match db.tables with
  | .current store => do
    let actions ← v4Actions files.ots store.rows
    let migrated ← (applyV4Actions store actions).outcome
    .ok ⟨schemaVersion, .current migrated⟩
  | _ => .error (.err "failed to deserialize CommitmentMeta during v4 migration")

theorem schema_migrateV1ToV2 {db next : Database} (h : (migrateV1ToV2 db).outcome = .ok next) :
    next.schema = schemaVersion := by
  rw [Result.outcome_eq_ok] at h
  unfold migrateV1ToV2 at h
  split at h
  · obtain ⟨migrated, -, hnext⟩ := bind_eq_ok.mp h
    cases hnext
    rfl
  · cases h

theorem schema_migrateV2ToV3 {files : MigrationFiles} {db next : Database}
    (h : (migrateV2ToV3 files db).outcome = .ok next) : next.schema = schemaVersion := by
  rw [Result.outcome_eq_ok] at h
  obtain ⟨entries, -, h⟩ := bind_eq_ok.mp h
  split at h
  · obtain ⟨migrated, -, hnext⟩ := bind_eq_ok.mp h
    cases hnext
    rfl
  · cases h

theorem schema_migrateV3ToV4 [OtsCodec] {files : MigrationFiles} {db next : Database}
    (h : migrateV3ToV4 files db = .ok next) : next.schema = schemaVersion := by
  unfold migrateV3ToV4 at h
  split at h
  · obtain ⟨actions, -, h⟩ := bind_eq_ok.mp h
    obtain ⟨migrated, -, hnext⟩ := bind_eq_ok.mp h
    cases hnext
    rfl
  · cases h

/-- Migrate the database until it has the current schema. -/
def ensureSchemaVersion [OtsCodec] (files : MigrationFiles) (db : Database) : Outcome Database :=
  if db.schema < schemaVersion then
    if db.schema = 1 then
      match _h : (migrateV1ToV2 db).outcome with
      | .error fault => .error fault
      | .ok next => ensureSchemaVersion files next
    else if db.schema = 2 ∧ 3 ≤ schemaVersion then
      match _h : (migrateV2ToV3 files db).outcome with
      | .error fault => .error fault
      | .ok next => ensureSchemaVersion files next
    else if db.schema = 3 ∧ 4 ≤ schemaVersion then
      match _h : migrateV3ToV4 files db with
      | .error fault => .error fault
      | .ok next => ensureSchemaVersion files next
    else
      .error (.err (s!"storage database at `{files.storagePath}` was built with an older " ++
        s!"incompatible lord version (schema {db.schema}, expected {schemaVersion})"))
  else if schemaVersion < db.schema then
    .error (.err (s!"storage database at `{files.storagePath}` was built with a newer " ++
      s!"incompatible lord version (schema {db.schema}, expected {schemaVersion})"))
  else
    .ok db
termination_by schemaVersion - db.schema
decreasing_by
  · have hnext := schema_migrateV1ToV2 _h
    omega
  · have hnext := schema_migrateV2ToV3 _h
    omega
  · have hnext := schema_migrateV3ToV4 _h
    omega

/-- `StorageStore::open`: a database without the schema statistic is new. -/
def openStore [OtsCodec] (files : MigrationFiles) (existing : Option Database) : Outcome Database :=
  match existing with
  | none => .ok ⟨schemaVersion, .current .empty⟩
  | some db => ensureSchemaVersion files db

end Lord.Storage
