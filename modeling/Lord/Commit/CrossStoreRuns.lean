import Lord.Commit.CrossStore
import Lord.Lib.Runs
import Lord.Ots.Format

/-! Runs of timestamps and upgrades of one encoded commitment, and when the cross-store check accepts
what a successful call leaves: it compares the first records of the root in a log that is only ever
appended to. -/

namespace Lord.Commit

open Storage Ots Runs

/-! ### The records of a log -/

/-- The log consists of whole frames that decode to these records. -/
def HoldsRecords (log : Option Bytes) (records : List BrecciaRecord) : Prop :=
  ∃ blobs, HoldsBlobs log blobs ∧ blobs.mapM decodeBrecciaBlob = .ok records

theorem HoldsRecords.readBrecciaRecords {dir : DataDir} {records : List BrecciaRecord}
    (h : HoldsRecords dir.breccia records) : readBrecciaRecords dir = .ok records := by
  obtain ⟨blobs, hblobs, hrecords⟩ := h
  exact bind_eq_ok.mpr ⟨blobs, hblobs.readAllBlobs _, hrecords⟩

theorem HoldsRecords.empty : HoldsRecords none [] := ⟨[], .inl ⟨rfl, rfl⟩, rfl⟩

/-- An append to a whole log adds the record of its blob or nothing, and a successful one adds it. -/
theorem appendBreccia_records (path : String) {env : BrecciaEnv} {log : Option Bytes}
    {records : List BrecciaRecord} (h : HoldsRecords log records) (hwhole : env.Untorn)
    (bump : Bool) {blob : Bytes} (message : String) {record : BrecciaRecord}
    (hdecode : blob.length < 256 ^ 8 → decodeBrecciaBlob blob = .ok record) :
    HoldsRecords (appendBreccia path env log bump blob message).2 (records ++ [record]) ∨
      HoldsRecords (appendBreccia path env log bump blob message).2 records ∧
        (appendBreccia path env log bump blob message).1 ≠ .ok () := by
  obtain ⟨blobs, hblobs, hrecords⟩ := h
  rcases appendBreccia_holds hblobs hwhole bump blob message with hadded | ⟨hsame, hne⟩
  · refine .inl ⟨blobs ++ [blob], hadded, ?_⟩
    have hlen : blob.length ≤ maxBrecciaBlobLen := by
      rcases hadded with ⟨-, hnil⟩ | ⟨-, -, -, hall⟩
      · simp at hnil
      · exact hall blob (by simp)
    have hrecord := hdecode (by simp only [maxBrecciaBlobLen] at hlen; omega)
    rw [List.mapM_append, hrecords]
    simp only [List.mapM_cons, List.mapM_nil, hrecord]
    rfl
  · exact .inr ⟨⟨blobs, hsame, hrecords⟩, hne⟩

/-! ### What a call leaves -/

/-- The blob of a commitment and the key that it is bound with stay as they are. -/
structure KeepsBlobs (dir dir' : DataDir) : Prop where
  path_eq : dir'.path = dir.path
  carbonado_eq : dir'.carbonado = dir.carbonado
  masterKey_eq : dir'.masterKey = dir.masterKey

theorem KeepsBlobs.verifyCarbonadoHeaderBinding_eq [Carbonado] {dir dir' : DataDir}
    (h : KeepsBlobs dir dir') (row : CommitmentMeta) (baoRoot : Bytes32) :
    verifyCarbonadoHeaderBinding dir' row baoRoot = verifyCarbonadoHeaderBinding dir row baoRoot := by
  obtain ⟨path, store, masterKey, carbonado, ots, pendingOts, breccia⟩ := dir
  obtain ⟨path', store', masterKey', carbonado', ots', pendingOts', breccia'⟩ := dir'
  obtain ⟨rfl, rfl, rfl⟩ := h
  rfl

theorem commitUpgradeOrderKey_getCommitment {s t : StorageStore} {baoRoot : Bytes32}
    {previousOrderKey : Option Bytes} {updated : CommitmentMeta} {key : Bytes}
    (hroot : updated.baoRoot = baoRoot)
    (h : commitUpgradeOrderKey s baoRoot previousOrderKey updated key = .ok t) :
    t.getCommitment baoRoot = some updated := by
  obtain ⟨encoded, -, hcommitted⟩ := commitUpgradeOrderKey_ok h
  rw [hcommitted.getCommitment_eq, if_pos hroot]

/-- What the writes of a timestamp leave of the row, the proofs and the records of its root. -/
theorem finishTimestamp_row (dir : DataDir) {staged : Staged} {env : TimestampEnv}
    {records : List BrecciaRecord} (hrow : dir.store.getCommitment staged.baoRoot = some staged.row)
    (hlog : HoldsRecords dir.breccia records) (hwhole : env.breccia.Untorn)
    (htag : ¬brecciaEntryV2Magic <+: staged.baoRoot.val) :
    KeepsBlobs dir (finishTimestamp dir staged env).2 ∧
      ((∃ err, (finishTimestamp dir staged env).1 = .error err) ∧
          (finishTimestamp dir staged env).2.store.getCommitment staged.baoRoot = some staged.row ∧
          (finishTimestamp dir staged env).2.ots = dir.ots ∧
          (∃ records', HoldsRecords (finishTimestamp dir staged env).2.breccia records') ∨
        (finishTimestamp dir staged env).1 = .ok staged.result ∧
          (finishTimestamp dir staged env).2.store.getCommitment staged.baoRoot =
            some staged.updated ∧
          (finishTimestamp dir staged env).2.ots =
            writeFile dir.ots staged.proofPath staged.proof ∧
          HoldsRecords (finishTimestamp dir staged env).2.breccia
            (records ++ [.v1 staged.entry])) := by
  have hroot := staged.updated_baoRoot hrow
  unfold finishTimestamp publishTimestamp
  cases hcommit : commitUpgradeOrderKey dir.store staged.baoRoot staged.row.otsOrderKey
      staged.updated staged.orderKey with
  | error err =>
    dsimp only
    split
    · exact ⟨⟨rfl, rfl, rfl⟩, .inl ⟨⟨_, rfl⟩, hrow, rfl, records, hlog⟩⟩
    · rename_i hrollback
      refine ⟨⟨rfl, rfl, rfl⟩, .inl ⟨⟨_, rfl⟩, ?_, rfl, records, hlog⟩⟩
      rw [← hrow]
      exact rollback_rejected_getCommitment hrow hrollback _
  | ok store =>
    obtain ⟨back, -, hrollback, -, hback, -⟩ :=
      rollback_ok hrow hroot staged.updated_otsOrderKey hcommit
    have hdecode : (encodeEntry staged.entry).length < 256 ^ 8 →
        decodeBrecciaBlob (encodeEntry staged.entry) = .ok (.v1 staged.entry) :=
      fun hlen => decodeBrecciaBlob_encodeEntry (length_encodeEntry_lt hlen).1
        (length_encodeEntry_lt hlen).2 htag
    have happend := appendBreccia_records (brecciaPath dir) hlog hwhole false
      "failed to append breccia entry" hdecode
    have hheld : ∃ records', HoldsRecords (appendBreccia (brecciaPath dir) env.breccia dir.breccia
        false (encodeEntry staged.entry) "failed to append breccia entry").2 records' := by
      rcases happend with hadded | ⟨hsame, -⟩
      · exact ⟨_, hadded⟩
      · exact ⟨_, hsame⟩
    rcases hrun : appendBreccia (brecciaPath dir) env.breccia dir.breccia false
      (encodeEntry staged.entry) "failed to append breccia entry" with ⟨result, log⟩
    rw [hrun] at happend hheld
    dsimp only
    cases result with
    | error err =>
      dsimp only
      rw [hrollback]
      exact ⟨⟨rfl, rfl, rfl⟩, .inl ⟨⟨_, rfl⟩, (hback _).trans hrow, rfl, hheld⟩⟩
    | ok _ =>
      dsimp only
      cases hpublish : env.publish.context
          s!"failed to publish OTS proof `{dir.path}/{staged.proofPath}`" with
      | error err =>
        dsimp only
        rw [hrollback]
        exact ⟨⟨rfl, rfl, rfl⟩, .inl ⟨⟨_, rfl⟩, (hback _).trans hrow, rfl, hheld⟩⟩
      | ok _ =>
        rcases happend with hadded | ⟨-, hne⟩
        · exact ⟨⟨rfl, rfl, rfl⟩, .inr
            ⟨rfl, commitUpgradeOrderKey_getCommitment hroot hcommit, rfl, hadded⟩⟩
        · exact absurd rfl hne

theorem StagedUpgrade.updated_eq_row {staged : StagedUpgrade}
    (h : staged.row.otsOrderKey = some staged.orderKey) : staged.updated = staged.row := by
  rw [StagedUpgrade.updated, ← h]

theorem moveOrderKey_row (dir : DataDir) {moved : DataDir} {staged : StagedUpgrade}
    (hrow : dir.store.getCommitment staged.baoRoot = some staged.row)
    (hmove : moveOrderKey dir staged = .ok moved) :
    ∃ store, moved = { dir with store } ∧
      store.getCommitment staged.baoRoot = some staged.updated ∧
      (staged.row.otsOrderKey = some staged.orderKey ∨
        ∃ back, rollbackTimestampLmdb store staged.row staged.row.otsOrderKey staged.updated =
          .ok back ∧ back.getCommitment staged.baoRoot = some staged.row) := by
  unfold moveOrderKey at hmove
  split at hmove
  · rename_i hsame
    cases hmove
    exact ⟨dir.store, rfl, by rw [staged.updated_eq_row hsame, hrow], .inl hsame⟩
  · obtain ⟨store, hcommit, hmoved⟩ := bind_eq_ok.mp hmove
    cases hmoved
    have hroot := staged.updated_baoRoot hrow
    obtain ⟨back, -, hrollback, -, hback, -⟩ :=
      rollback_ok hrow hroot staged.updated_otsOrderKey hcommit
    exact ⟨store, rfl, commitUpgradeOrderKey_getCommitment hroot hcommit,
      .inr ⟨back, hrollback, (hback _).trans hrow⟩⟩

section

variable [OtsCodec]

/-- The records after an upgrade to a proof of this height. -/
def StagedUpgrade.records (staged : StagedUpgrade) (records : List BrecciaRecord)
    (height : Option UInt32) : List BrecciaRecord :=
  match height, brecciaV2 records staged.baoRoot with
  | some height, none => records ++ [.v2 (staged.entry height)]
  | _, _ => records

omit [OtsCodec] in
theorem brecciaHasV2ForRoot_eq {dir : DataDir} {records : List BrecciaRecord}
    (h : HoldsRecords dir.breccia records) (baoRoot : Bytes32) :
    brecciaHasV2ForRoot dir baoRoot = .ok (brecciaV2 records baoRoot).isSome := by
  refine bind_eq_ok.mpr ⟨records, h.readBrecciaRecords, congrArg Except.ok ?_⟩
  rw [Bool.eq_iff_iff, List.any_eq_true, brecciaV2, List.findSome?_isSome_iff]
  refine exists_congr fun record => and_congr_right fun _ => ?_
  cases record with
  | v1 entry => simp
  | v2 entry => by_cases hroot : entry.baoRoot = baoRoot <;> simp [hroot]

/-- The end of an upgrade adds its record to the log, or fails. -/
theorem recordUpgrade_records (dir : DataDir) (staged : StagedUpgrade) {env : UpgradeEnv}
    (upgraded : Bool) {records : List BrecciaRecord} (hlog : HoldsRecords dir.breccia records)
    (hwhole : env.breccia.Untorn) :
    (∃ log, (recordUpgrade dir staged env upgraded).2 = { dir with breccia := log } ∧
      ∃ records', HoldsRecords log records') ∧
    (∀ result, (recordUpgrade dir staged env upgraded).1 = .ok result →
      HoldsRecords (recordUpgrade dir staged env upgraded).2.breccia
        (staged.records records (attestationHeightFromProof staged.proof))) := by
  unfold recordUpgrade maybeAppendBrecciaV2AndEnqueueLtp StagedUpgrade.records
  rw [brecciaHasV2ForRoot_eq hlog]
  cases attestationHeightFromProof staged.proof with
  | none => exact ⟨⟨_, rfl, records, hlog⟩, fun _ _ => hlog⟩
  | some height =>
    cases hfirst : brecciaV2 records staged.baoRoot with
    | some first =>
      cases env.enqueue <;> exact ⟨⟨_, rfl, records, hlog⟩, fun _ _ => hlog⟩
    | none =>
      have hdecode : (encodeEntryV2 (staged.entry height)).length < 256 ^ 8 →
          decodeBrecciaBlob (encodeEntryV2 (staged.entry height)) =
            .ok (.v2 (staged.entry height)) :=
        fun hlen =>
          have ⟨hkey, hpath, htxid⟩ := length_encodeEntryV2_lt hlen
          decodeBrecciaBlob_encodeEntryV2 hkey hpath htxid
      have happend := appendBreccia_records (brecciaPath dir) hlog hwhole true
        "failed to append breccia v2 entry" hdecode
      simp only [Option.isSome_none]
      rcases hrun : appendBreccia (brecciaPath dir) env.breccia dir.breccia true
        (encodeEntryV2 (staged.entry height)) "failed to append breccia v2 entry" with ⟨result, log⟩
      rw [hrun] at happend
      have hheld : ∃ records', HoldsRecords log records' := by
        rcases happend with hadded | ⟨hsame, -⟩
        · exact ⟨_, hadded⟩
        · exact ⟨_, hsame⟩
      cases result with
      | error err => exact ⟨⟨_, rfl, hheld⟩, nofun⟩
      | ok _ =>
        rcases happend with hadded | ⟨-, hne⟩
        · cases env.enqueue <;> exact ⟨⟨_, rfl, hheld⟩, fun _ _ => hadded⟩
        · exact absurd rfl hne

omit [OtsCodec] in
theorem publishUpgrade_row {dir : DataDir} {store : StorageStore} {staged : StagedUpgrade}
    (env : UpgradeEnv) (hupdated : store.getCommitment staged.baoRoot = some staged.updated)
    (hback : staged.row.otsOrderKey = some staged.orderKey ∨
      ∃ back, rollbackTimestampLmdb store staged.row staged.row.otsOrderKey staged.updated =
        .ok back ∧ back.getCommitment staged.baoRoot = some staged.row) :
    (∃ err back pendingOts, publishUpgrade { dir with store } staged env =
        (.error err, { dir with store := back, pendingOts }) ∧
      back.getCommitment staged.baoRoot = some staged.row) ∨
    ∃ pendingOts, publishUpgrade { dir with store } staged env =
      (.ok (), { dir with store, pendingOts,
                          ots := writeFile dir.ots staged.proofPath staged.proof }) := by
  unfold publishUpgrade
  dsimp only
  split
  · exact .inr ⟨_, rfl⟩
  · split
    · rename_i hsame
      rw [staged.updated_eq_row hsame] at hupdated
      exact .inl ⟨_, _, _, rfl, hupdated⟩
    · rename_i hchanged
      obtain hsame | ⟨back, hrollback, hrow⟩ := hback
      · exact absurd hsame hchanged
      · rw [hrollback]
        exact .inl ⟨_, _, _, rfl, hrow⟩

/-- The writes of an upgrade fail and leave the row and the proofs, or reach the record of the new
proof. -/
theorem applyUpgrade_row (dir : DataDir) {staged : StagedUpgrade} (env : UpgradeEnv)
    (hrow : dir.store.getCommitment staged.baoRoot = some staged.row)
    (hproof : dir.ots staged.proofPath = some staged.currentProof) :
    (∃ err store pendingOts, applyUpgrade dir staged env =
        (.error err, { dir with store, pendingOts }) ∧
      store.getCommitment staged.baoRoot = some staged.row) ∨
    ∃ store pendingOts ots upgraded, applyUpgrade dir staged env =
        recordUpgrade { dir with store, pendingOts, ots } staged env upgraded ∧
      store.getCommitment staged.baoRoot = some staged.updated ∧
      ots staged.proofPath = some staged.proof := by
  unfold applyUpgrade
  split
  · rename_i hsame
    split
    · exact .inl ⟨_, _, _, rfl, hrow⟩
    · rename_i moved hmove
      obtain ⟨store, rfl, hupdated, -⟩ := moveOrderKey_row dir hrow hmove
      exact .inr ⟨store, _, _, false, rfl, hupdated, by rw [hproof, hsame]⟩
  split
  · exact .inl ⟨_, _, _, rfl, hrow⟩
  split
  · exact .inl ⟨_, _, _, rfl, hrow⟩
  dsimp only
  split
  · exact .inl ⟨_, _, _, rfl, hrow⟩
  rename_i moved hmove
  obtain ⟨store, rfl, hupdated, hback⟩ := moveOrderKey_row
    { dir with pendingOts := writeFile dir.pendingOts staged.proofPath staged.proof } hrow hmove
  rcases publishUpgrade_row env hupdated hback with
    ⟨err, back, pendingOts, hpublish, hbackRow⟩ | ⟨pendingOts, hpublish⟩
  · rw [hpublish]
    exact .inl ⟨err, back, pendingOts, rfl, hbackRow⟩
  · rw [hpublish]
    exact .inr ⟨store, pendingOts, _, true, rfl, hupdated, writeFile_same _ _ _⟩

end

/-! ### Runs of calls on one commitment -/

inductive CommitmentCall where
  | timestamp (baoRootHex : String) (options : TimestampOptions) (env : TimestampEnv)
  | upgrade (baoRootHex calendarUpgradeUrl : String) (env : UpgradeEnv)

namespace CommitmentCall

def baoRootHex : CommitmentCall → String
  | timestamp baoRootHex _ _ => baoRootHex
  | upgrade baoRootHex _ _ => baoRootHex

def breccia : CommitmentCall → BrecciaEnv
  | timestamp _ _ env => env.breccia
  | upgrade _ _ env => env.breccia

variable [Digests] [OtsCodec]

def exec (dir : DataDir) : CommitmentCall → DataDir
  | timestamp baoRootHex options env => (timestampCommitment dir baoRootHex options env).2
  | upgrade baoRootHex url env => (upgradeCommitment dir baoRootHex url env).2

/-- The call returns `Ok`. -/
def Succeeds (dir : DataDir) : CommitmentCall → Prop
  | timestamp baoRootHex options env =>
    ∃ result, (timestampCommitment dir baoRootHex options env).1 = .ok result
  | upgrade baoRootHex url env => ∃ result, (upgradeCommitment dir baoRootHex url env).1 = .ok result

end CommitmentCall

/-- The first v2 record of a root has this order key, path and, when the proof is attested, height. -/
def V2Fits (entry : CommitmentEntryV2) (carbonadoPath : String) (orderKey : Bytes)
    (height : Option UInt32) : Prop :=
  orderKey = entry.otsOrderKey ∧
    (carbonadoPath = entry.carbonadoPath ∨ entry.carbonadoPath = "") ∧
    (height = none ∨ some entry.attestationHeight = height)

/-- A stamp fits the records in front of it: the first v2 record of its root, or, while there is
none, an unattested proof and the first v1 record if there is one. -/
def StampFits (records : List BrecciaRecord) (baoRoot : Bytes32) (carbonadoPath : String)
    (orderKey : Bytes) (timestampedAt : UInt64) (height : Option UInt32) : Prop :=
  match brecciaV2 records baoRoot with
  | some entry => V2Fits entry carbonadoPath orderKey height
  | none => (∀ entry, brecciaV1 records baoRoot = some entry →
    orderKey = entry.otsOrderKey ∧ timestampedAt = entry.timestampedAt ∧
      carbonadoPath = entry.carbonadoPath) ∧ height = none

/-- An upgrade fits the records in front of it: the first v2 record of its root, or, while there is
none, it brings an attested proof or keeps to the first v1 record. -/
def UpgradeFits (records : List BrecciaRecord) (row : CommitmentMeta) (orderKey : Bytes)
    (height : Option UInt32) : Prop :=
  match brecciaV2 records row.baoRoot with
  | some entry => V2Fits entry row.carbonadoPath orderKey height
  | none => height = none → ∃ entry, brecciaV1 records row.baoRoot = some entry ∧
    orderKey = entry.otsOrderKey ∧ row.timestampedAt = some entry.timestampedAt ∧
      row.carbonadoPath = entry.carbonadoPath

theorem reported_append_v1 {records : List BrecciaRecord} {baoRoot : Bytes32} {row : CommitmentMeta}
    {entry : CommitmentEntry} (height : Option UInt32) (hroot : entry.baoRoot = baoRoot)
    (hkey : row.otsOrderKey = some entry.otsOrderKey)
    (htime : row.timestampedAt = some entry.timestampedAt)
    (hpath : row.carbonadoPath = entry.carbonadoPath) :
    Reported (records ++ [.v1 entry]) baoRoot row height ↔
      StampFits records baoRoot entry.carbonadoPath entry.otsOrderKey entry.timestampedAt height := by
  unfold Reported StampFits V2Fits
  rw [brecciaV2_append_v1, brecciaV1_append_v1 hroot, hkey, htime, hpath]
  cases brecciaV2 records baoRoot with
  | some first => simp
  | none =>
    cases brecciaV1 records baoRoot with
    | none => simp
    | some first => simp [and_assoc]

theorem StagedUpgrade.reported_records (staged : StagedUpgrade) (records : List BrecciaRecord)
    (height : Option UInt32) (hroot : staged.row.baoRoot = staged.baoRoot) :
    Reported (staged.records records height) staged.baoRoot staged.updated height ↔
      UpgradeFits records staged.row staged.orderKey height := by
  unfold Reported UpgradeFits V2Fits StagedUpgrade.records
  rw [hroot]
  cases hfirst : brecciaV2 records staged.baoRoot with
  | some first => cases height <;> simp [hfirst, StagedUpgrade.updated]
  | none =>
    cases height with
    | some height =>
      have hadded := @brecciaV2_append_v2 records staged.baoRoot (staged.entry height) rfl hfirst
      simp only [hadded]
      simp [StagedUpgrade.updated, StagedUpgrade.entry]
    | none =>
      cases brecciaV1 records staged.baoRoot <;> simp [hfirst, StagedUpgrade.updated]

section

variable [Digests] [OtsCodec]

/-- What a timestamp stamps a root with: the row's own data when it repairs the log, and otherwise
the proof that it obtains, its order key and the time. -/
def Stamps (dir : DataDir) (row : CommitmentMeta) (options : TimestampOptions) (env : TimestampEnv)
    (proof orderKey : Bytes) (timestampedAt : UInt64) : Prop :=
  if row.isTimestamped && !options.force then
    row.otsProofPath.bind dir.ots = some proof ∧ row.otsOrderKey = some orderKey ∧
      timestampedAt = row.timestampedAt.getD row.createdAt
  else
    obtainProof options env row.baoRoot = .ok proof ∧ orderKeyFromProofBytes proof = .ok orderKey ∧
      env.now = .ok timestampedAt

/-- What a call brings to a root fits the records that the log has of it. -/
def CommitmentCall.Fits (dir : DataDir) (baoRoot : Bytes32) : CommitmentCall → Prop
  | .timestamp _ options env => ∀ row records proof orderKey timestampedAt,
    dir.store.getCommitment baoRoot = some row → readBrecciaRecords dir = .ok records →
    Stamps dir row options env proof orderKey timestampedAt →
    StampFits records baoRoot row.carbonadoPath orderKey timestampedAt
      (attestationHeightFromProof proof)
  | .upgrade _ url env => ∀ row records proof orderKey,
    dir.store.getCommitment baoRoot = some row → readBrecciaRecords dir = .ok records →
    fetchUpgradedProof env url baoRoot = .ok proof → orderKeyFromProofBytes proof = .ok orderKey →
    UpgradeFits records row orderKey (attestationHeightFromProof proof)

theorem Stamps.unique {dir : DataDir} {row : CommitmentMeta} {options : TimestampOptions}
    {env : TimestampEnv} {proof proof' key key' : Bytes} {time time' : UInt64}
    (h : Stamps dir row options env proof key time)
    (h' : Stamps dir row options env proof' key' time') :
    proof' = proof ∧ key' = key ∧ time' = time := by
  unfold Stamps at h h'
  split at h
  · rename_i hrepair
    rw [if_pos hrepair] at h'
    obtain ⟨hproof, hkey, rfl⟩ := h
    obtain ⟨hproof', hkey', rfl⟩ := h'
    rw [hproof] at hproof'
    rw [hkey] at hkey'
    exact ⟨(Option.some.inj hproof').symm, (Option.some.inj hkey').symm, rfl⟩
  · rename_i hrepair
    rw [if_neg hrepair] at h'
    obtain ⟨hproof, hkey, htime⟩ := h
    obtain ⟨hproof', hkey', htime'⟩ := h'
    rw [hproof] at hproof'
    cases hproof'
    rw [hkey] at hkey'
    rw [htime] at htime'
    exact ⟨rfl, (Except.ok.inj hkey').symm, (Except.ok.inj htime').symm⟩

/-- An encoded commitment between two calls. -/
structure Tracks [Carbonado] (dir : DataDir) (baoRoot : Bytes32) (row : CommitmentMeta)
    (records : List BrecciaRecord) : Prop where
  row_eq : dir.store.getCommitment baoRoot = some row
  bound : verifyCarbonadoHeaderBinding dir row baoRoot = .ok ()
  stamped : row.otsProofPath = none ∨ ∃ proof, Stamped dir row proof
  log : HoldsRecords dir.breccia records

theorem stageUpgrade_ok {dir : DataDir} {baoRootHex url : String} {env : UpgradeEnv}
    {staged : StagedUpgrade} (h : stageUpgrade dir baoRootHex url env = .ok staged) :
    parseBaoRoot baoRootHex = .ok staged.baoRoot ∧
      dir.store.getCommitment staged.baoRoot = some staged.row ∧
      staged.row.otsProofPath = some staged.proofPath ∧
      dir.ots staged.proofPath = some staged.currentProof ∧
      fetchUpgradedProof env url staged.baoRoot = .ok staged.proof ∧
      orderKeyFromProofBytes staged.proof = .ok staged.orderKey := by
  unfold stageUpgrade at h
  simp only [bind_eq_ok, Result.outcome_eq_ok, okOr_eq_ok] at h
  obtain ⟨baoRoot, hroot, row, hrow, path, hpath, current, hcurrent, proof, hproof, -, -, key, hkey,
    hstaged⟩ := h
  cases hstaged
  exact ⟨hroot, hrow, hpath, hcurrent, hproof, hkey⟩

variable [Carbonado] {dir : DataDir} {baoRoot : Bytes32} {row : CommitmentMeta}
  {records : List BrecciaRecord}

/-- What a successful call leaves: a tracked commitment whose records tell what its row and its
proof tell exactly when the call fits. -/
def Leaves (dir dir' : DataDir) (baoRoot : Bytes32) (call : CommitmentCall) : Prop :=
  ∃ row records proof, Tracks dir' baoRoot row records ∧ Stamped dir' row proof ∧
    (Reported records baoRoot row (attestationHeightFromProof proof) ↔ call.Fits dir baoRoot)

theorem Tracks.stamps_fits_iff (h : Tracks dir baoRoot row records) {hex : String}
    {options : TimestampOptions} {env : TimestampEnv} {proof orderKey : Bytes}
    {timestampedAt : UInt64} (hstamps : Stamps dir row options env proof orderKey timestampedAt) :
    (CommitmentCall.timestamp hex options env).Fits dir baoRoot ↔
      StampFits records baoRoot row.carbonadoPath orderKey timestampedAt
        (attestationHeightFromProof proof) := by
  constructor
  · exact fun hfits => hfits row records proof orderKey timestampedAt h.row_eq
      h.log.readBrecciaRecords hstamps
  · intro hfits row' records' proof' key' time' hrow' hread' hstamps'
    rw [h.row_eq] at hrow'
    cases hrow'
    rw [h.log.readBrecciaRecords] at hread'
    cases hread'
    obtain ⟨rfl, rfl, rfl⟩ := hstamps.unique hstamps'
    exact hfits

theorem Tracks.upgrade_fits_iff (h : Tracks dir baoRoot row records) {hex url : String}
    {env : UpgradeEnv} {proof orderKey : Bytes}
    (hproof : fetchUpgradedProof env url baoRoot = .ok proof)
    (hkey : orderKeyFromProofBytes proof = .ok orderKey) :
    (CommitmentCall.upgrade hex url env).Fits dir baoRoot ↔
      UpgradeFits records row orderKey (attestationHeightFromProof proof) := by
  constructor
  · exact fun hfits => hfits row records proof orderKey h.row_eq h.log.readBrecciaRecords hproof hkey
  · intro hfits row' records' proof' key' hrow' hread' hproof' hkey'
    rw [h.row_eq] at hrow'
    cases hrow'
    rw [h.log.readBrecciaRecords] at hread'
    cases hread'
    rw [hproof] at hproof'
    cases hproof'
    rw [hkey] at hkey'
    cases hkey'
    exact hfits

omit [Carbonado] [Digests] [OtsCodec] in
theorem repairBrecciaFromMeta_records (baoRootHex : String) {env : BrecciaEnv}
    (hlog : HoldsRecords dir.breccia records) (hwhole : env.Untorn)
    (htag : ¬brecciaEntryV2Magic <+: row.baoRoot.val) {path : String} {orderKey : Bytes}
    (hpath : row.otsProofPath = some path) (hkey : row.otsOrderKey = some orderKey) :
    (∃ log, (repairBrecciaFromMeta dir baoRootHex row env).2 = { dir with breccia := log } ∧
      ∃ records', HoldsRecords log records') ∧
    ∀ result, (repairBrecciaFromMeta dir baoRootHex row env).1 = .ok result →
      HoldsRecords (repairBrecciaFromMeta dir baoRootHex row env).2.breccia
        (records ++ [.v1 ⟨row.baoRoot, orderKey, row.timestampedAt.getD row.createdAt,
          row.carbonadoPath⟩]) := by
  let entry : CommitmentEntry :=
    ⟨row.baoRoot, orderKey, row.timestampedAt.getD row.createdAt, row.carbonadoPath⟩
  have hdecode : (encodeEntry entry).length < 256 ^ 8 →
      decodeBrecciaBlob (encodeEntry entry) = .ok (.v1 entry) :=
    fun hlen => decodeBrecciaBlob_encodeEntry (length_encodeEntry_lt hlen).1
      (length_encodeEntry_lt hlen).2 htag
  have happend := appendBreccia_records (brecciaPath dir) hlog hwhole false
    "failed to append breccia entry during repair" hdecode
  unfold repairBrecciaFromMeta
  rw [hkey, hpath]
  dsimp only
  rcases hrun : appendBreccia (brecciaPath dir) env dir.breccia false (encodeEntry entry)
    "failed to append breccia entry during repair" with ⟨result, log⟩
  rw [hrun] at happend
  cases result with
  | error err =>
    refine ⟨⟨log, rfl, ?_⟩, nofun⟩
    rcases happend with hadded | ⟨hsame, -⟩
    · exact ⟨_, hadded⟩
    · exact ⟨_, hsame⟩
  | ok _ =>
    rcases happend with hadded | ⟨-, hne⟩
    · exact ⟨⟨log, rfl, _, hadded⟩, fun _ _ => hadded⟩
    · exact absurd rfl hne

theorem Tracks.timestamp (h : Tracks dir baoRoot row records) {hex : String}
    (hroot : parseBaoRoot hex = .ok baoRoot) (options : TimestampOptions) {env : TimestampEnv}
    (hwhole : env.breccia.Untorn) (htag : ¬brecciaEntryV2Magic <+: baoRoot.val) :
    let call := CommitmentCall.timestamp hex options env
    (∃ row' records', Tracks (call.exec dir) baoRoot row' records') ∧
      (call.Succeeds dir → Leaves dir (call.exec dir) baoRoot call) := by
  have hrun := timestampCommitment_run dir hex options env
  simp only [CommitmentCall.exec, CommitmentCall.Succeeds]
  cases hout : timestampCommitment dir hex options env with
  | mk outcome dir' =>
  rw [hout] at hrun
  have hrowRoot := StorageStore.baoRoot_of_getCommitment h.row_eq
  cases hrun with
  | rejected fault hnot => exact ⟨⟨row, records, h⟩, nofun⟩
  | repaired baoRoot' row' hnot hroot' hrow hstamped hforce habsent =>
    rw [hroot] at hroot'
    cases hroot'
    rw [h.row_eq] at hrow
    cases hrow
    obtain ⟨path, hpath⟩ := Option.isSome_iff_exists.mp (Bool.and_eq_true_iff.mp hstamped).1
    obtain hnone | ⟨proof, hproof⟩ := h.stamped
    · rw [hnone] at hpath
      cases hpath
    obtain ⟨key, hkey, hproofKey⟩ := hproof.orderKey_eq
    obtain ⟨time, htime⟩ := Option.isSome_iff_exists.mp hproof.timestampedAt_isSome
    rw [← hrowRoot] at htag
    obtain ⟨⟨log, hleft, records', hlog⟩, hok⟩ :=
      repairBrecciaFromMeta_records hex h.log hwhole htag hpath hkey
    rw [hleft] at hok
    simp only [hleft]
    have hbound : ∀ log, verifyCarbonadoHeaderBinding { dir with breccia := log } row baoRoot =
        .ok () := fun log => by
      rw [← h.bound]
      exact KeepsBlobs.verifyCarbonadoHeaderBinding_eq ⟨rfl, rfl, rfl⟩ row baoRoot
    have hleftProof : Stamped { dir with breccia := log } row proof :=
      ⟨hproof.proof_eq, ⟨key, hkey, hproofKey⟩, hproof.timestampedAt_isSome⟩
    refine ⟨⟨row, records', h.row_eq, hbound log, .inr ⟨proof, hleftProof⟩, hlog⟩, ?_⟩
    rintro ⟨result, hresult⟩
    have hadded := hok result (Result.outcome_eq_ok.mp hresult)
    refine ⟨row, _, proof, ⟨h.row_eq, hbound log, .inr ⟨proof, hleftProof⟩, hadded⟩, hleftProof, ?_⟩
    have hstamps : Stamps dir row options env proof key (row.timestampedAt.getD row.createdAt) := by
      rw [Stamps, if_pos (by simp [hstamped, hforce])]
      exact ⟨hproof.proof_eq, hkey, rfl⟩
    rw [h.stamps_fits_iff hstamps]
    exact reported_append_v1 _ hrowRoot hkey (by simp [htime]) rfl
  | written staged pending hsubmits hhex hrow hproof hkey hnow =>
    obtain ⟨hroot', ⟨row', hrow', hmay⟩, -⟩ := (hsubmits _ _).mpr ⟨rfl, rfl⟩
    rw [hroot] at hroot'
    cases hroot'
    rw [h.row_eq] at hrow hrow'
    cases hrow
    cases hrow'
    obtain ⟨hblobs, hleft⟩ := finishTimestamp_row { dir with pendingOts := pending }
      h.row_eq h.log hwhole htag
    generalize finishTimestamp { dir with pendingOts := pending } staged env = finished at hblobs hleft
    have hbound : verifyCarbonadoHeaderBinding finished.2 staged.row staged.baoRoot = .ok () := by
      rw [← h.bound]
      exact hblobs.verifyCarbonadoHeaderBinding_eq staged.row staged.baoRoot
    obtain ⟨⟨err, herr⟩, hrow, hots, records', hlog⟩ | ⟨hok, hrow, hots, hlog⟩ := hleft
    · refine ⟨⟨staged.row, records', hrow, hbound, ?_, hlog⟩, ?_⟩
      · refine h.stamped.imp_right fun ⟨proof, hstamped⟩ => ⟨proof, ?_⟩
        refine ⟨?_, hstamped.orderKey_eq, hstamped.timestampedAt_isSome⟩
        rw [hots]
        exact hstamped.proof_eq
      · rintro ⟨result, hresult⟩
        rw [herr] at hresult
        cases hresult
    · have hstamped : Stamped finished.2 staged.updated staged.proof := by
        refine ⟨?_, ⟨staged.orderKey, rfl, hkey⟩, rfl⟩
        rw [hots]
        exact writeFile_same _ _ _
      have htracks : Tracks finished.2 staged.baoRoot staged.updated
          (records ++ [.v1 staged.entry]) := ⟨hrow, hbound, .inr ⟨_, hstamped⟩, hlog⟩
      refine ⟨⟨_, _, htracks⟩, fun _ => ⟨_, _, _, htracks, hstamped, ?_⟩⟩
      have hstamps : Stamps dir staged.row options env staged.proof staged.orderKey
          staged.timestampedAt := by
        rw [Stamps, if_neg (by rcases hmay with hnot | hforce <;> simp [*]), hrowRoot]
        exact ⟨hproof, hkey, hnow⟩
      rw [h.stamps_fits_iff hstamps]
      exact reported_append_v1 _ rfl rfl rfl rfl

theorem Tracks.upgrade (h : Tracks dir baoRoot row records) {hex : String}
    (hroot : parseBaoRoot hex = .ok baoRoot) (url : String) {env : UpgradeEnv}
    (hwhole : env.breccia.Untorn) :
    let call := CommitmentCall.upgrade hex url env
    (∃ row' records', Tracks (call.exec dir) baoRoot row' records') ∧
      (call.Succeeds dir → Leaves dir (call.exec dir) baoRoot call) := by
  simp only [CommitmentCall.exec, CommitmentCall.Succeeds, upgradeCommitment]
  cases hstage : stageUpgrade dir hex url env with
  | error fault => exact ⟨⟨row, records, h⟩, nofun⟩
  | ok staged =>
    obtain ⟨hroot', hrow, hpath, hcurrent, hproof, hkey⟩ := stageUpgrade_ok hstage
    rw [hroot] at hroot'
    cases hroot'
    rw [h.row_eq] at hrow
    cases hrow
    have hrowRoot := StorageStore.baoRoot_of_getCommitment h.row_eq
    obtain hnone | ⟨proof, hproofStamped⟩ := h.stamped
    · rw [hnone] at hpath
      cases hpath
    have hbound : ∀ dir', KeepsBlobs dir dir' →
        verifyCarbonadoHeaderBinding dir' staged.row staged.baoRoot = .ok () :=
      fun dir' hblobs => by rw [hblobs.verifyCarbonadoHeaderBinding_eq, h.bound]
    dsimp only
    rcases applyUpgrade_row dir env h.row_eq hcurrent with
      ⟨err, store, pending, happly, hrow⟩ | ⟨store, pending, ots, upgraded, happly, hrow, hots⟩
    · rw [happly]
      refine ⟨⟨staged.row, records, hrow, hbound _ ⟨rfl, rfl, rfl⟩, ?_, h.log⟩, nofun⟩
      exact .inr ⟨proof, hproofStamped.proof_eq, hproofStamped.orderKey_eq,
        hproofStamped.timestampedAt_isSome⟩
    · rw [happly]
      obtain ⟨⟨log, hleft, records', hlog⟩, hok⟩ :=
        recordUpgrade_records { dir with store, pendingOts := pending, ots } staged upgraded h.log
          hwhole
      rw [hleft] at hok
      simp only [hleft]
      have hstamped : ∀ log, Stamped { dir with store, pendingOts := pending, ots, breccia := log }
          staged.updated staged.proof := fun log => by
        refine ⟨?_, ⟨staged.orderKey, rfl, hkey⟩, hproofStamped.timestampedAt_isSome⟩
        show staged.row.otsProofPath.bind ots = some staged.proof
        rw [hpath, Option.bind_some, hots]
      refine ⟨⟨staged.updated, records', hrow, hbound _ ⟨rfl, rfl, rfl⟩, .inr ⟨_, hstamped log⟩,
        hlog⟩, ?_⟩
      rintro ⟨result, hresult⟩
      have hadded := hok result (Result.outcome_eq_ok.mp hresult)
      refine ⟨staged.updated, _, staged.proof, ⟨hrow, hbound _ ⟨rfl, rfl, rfl⟩,
        .inr ⟨_, hstamped log⟩, hadded⟩, hstamped log, ?_⟩
      rw [h.upgrade_fits_iff hproof hkey]
      exact staged.reported_records records _ hrowRoot

/-- Every call keeps track of the commitment. -/
theorem Tracks.exec (h : Tracks dir baoRoot row records) {call : CommitmentCall}
    (hroot : parseBaoRoot call.baoRootHex = .ok baoRoot) (hwhole : call.breccia.Untorn)
    (htag : ¬brecciaEntryV2Magic <+: baoRoot.val) :
    (∃ row' records', Tracks (call.exec dir) baoRoot row' records') ∧
      (call.Succeeds dir → Leaves dir (call.exec dir) baoRoot call) := by
  cases call with
  | timestamp hex options env => exact h.timestamp hroot options hwhole htag
  | upgrade hex url env => exact h.upgrade hroot url hwhole

theorem Tracks.run (h : Tracks dir baoRoot row records) {calls : List CommitmentCall}
    (hroot : ∀ call ∈ calls, parseBaoRoot call.baoRootHex = .ok baoRoot)
    (hwhole : ∀ call ∈ calls, call.breccia.Untorn) (htag : ¬brecciaEntryV2Magic <+: baoRoot.val) :
    ∃ row' records', Tracks (run CommitmentCall.exec dir calls) baoRoot row' records' := by
  induction calls generalizing dir row records with
  | nil => exact ⟨row, records, h⟩
  | cons call rest ih =>
    obtain ⟨⟨row', records', hnext⟩, -⟩ :=
      h.exec (hroot call (by simp)) (hwhole call (by simp)) htag
    exact ih hnext (fun c hc => hroot c (List.mem_cons_of_mem _ hc))
      (fun c hc => hwhole c (List.mem_cons_of_mem _ hc))

theorem Tracks.verify_iff [LawfulOtsCodec] (h : Tracks dir baoRoot row records) {proof : Bytes}
    (hstamped : Stamped dir row proof) {hex : String} (hroot : parseBaoRoot hex = .ok baoRoot) :
    (∃ result, verifyCommitmentCrossStore dir hex = .ok result ∧ result.valid = true) ↔
      Reported records baoRoot row (attestationHeightFromProof proof) := by
  rw [← verifyCrossStore_valid_iff hstamped h.bound h.log.readBrecciaRecords]
  have hread : readOtsProof dir row = .ok proof := by
    obtain ⟨path, hpath, hots⟩ := Option.bind_eq_some_iff.mp hstamped.proof_eq
    rw [readOtsProof, hpath]
    exact okOr_eq_ok.mpr hots
  have hverify : verifyCommitmentCrossStore dir hex = verifyCrossStore dir baoRoot row proof := by
    simp only [verifyCommitmentCrossStore, hroot, h.row_eq, hread, Result.outcome, okOr, bind,
      Except.bind]
  rw [hverify]

/-- A commitment as it is encoded, with an intact blob, beside a log of whole records. -/
def Encoded (dir : DataDir) (baoRoot : Bytes32) : Prop :=
  ∃ row records, Tracks dir baoRoot row records ∧ row.otsState = (none, none, none)

/-- In a run of timestamps and upgrades of one encoded commitment that tears no frame of the log,
the cross-store check accepts what the last call leaves, when it succeeds, exactly when that call
fits the records in front of it. -/
theorem crossStore_valid_iff [LawfulOtsCodec] {calls : List CommitmentCall} {last : CommitmentCall}
    (h : Encoded dir baoRoot) (htag : ¬brecciaEntryV2Magic <+: baoRoot.val)
    (hroot : ∀ call ∈ calls ++ [last], parseBaoRoot call.baoRootHex = .ok baoRoot)
    (hwhole : ∀ call ∈ calls ++ [last], call.breccia.Untorn)
    (hok : last.Succeeds (run CommitmentCall.exec dir calls)) :
    (∃ result, verifyCommitmentCrossStore (run CommitmentCall.exec dir (calls ++ [last]))
        last.baoRootHex = .ok result ∧ result.valid = true) ↔
      last.Fits (run CommitmentCall.exec dir calls) baoRoot := by
  obtain ⟨row, records, htracks, -⟩ := h
  obtain ⟨row', records', hbefore⟩ := htracks.run
    (fun call hcall => hroot call (List.mem_append_left _ hcall))
    (fun call hcall => hwhole call (List.mem_append_left _ hcall)) htag
  obtain ⟨-, hleaves⟩ := hbefore.exec (hroot last (by simp)) (hwhole last (by simp)) htag
  obtain ⟨row'', records'', proof, hafter, hstamped, hiff⟩ := hleaves hok
  have hrun : run CommitmentCall.exec dir (calls ++ [last]) =
      last.exec (run CommitmentCall.exec dir calls) := by
    simp [run]
  rw [hrun, hafter.verify_iff hstamped (hroot last (by simp)), hiff]

end

/-! ### A second stamp at a later time -/

section

attribute [local instance] exampleCodec Format.sha256Digests Format.sha256Codec

/-- A dry run with `--force` at this time. -/
def forcedStamp (now : UInt64) : CommitmentCall :=
  .timestamp (Hex.encode exampleRoot.val) { dryRun with force := true } (exampleTimestampEnv now)

theorem exampleDir_encoded : Encoded exampleDir exampleRoot :=
  ⟨.new exampleRoot "blob.c12" 12 .inboard 0, [],
    ⟨by decide +kernel, by decide +kernel, .inl rfl, HoldsRecords.empty⟩, rfl⟩

theorem forcedStamp_untorn (now : UInt64) : (forcedStamp now).breccia.Untorn := ⟨nofun, nofun⟩

/-- The log keeps the record of the first stamp, and the check compares its time with the row's. -/
theorem crossStore_invalid_after_force :
    Encoded exampleDir exampleRoot ∧
      (forcedStamp 200).Succeeds (run CommitmentCall.exec exampleDir [forcedStamp 100]) ∧
      ¬∃ result, verifyCommitmentCrossStore
        (run CommitmentCall.exec exampleDir [forcedStamp 100, forcedStamp 200])
        (forcedStamp 200).baoRootHex = .ok result ∧ result.valid = true := by
  refine ⟨exampleDir_encoded, exists_of_isOk (by decide +kernel), ?_⟩
  rintro ⟨result, hresult, hvalid⟩
  have hrun : (verifyCommitmentCrossStore
      (run CommitmentCall.exec exampleDir [forcedStamp 100, forcedStamp 200])
      (forcedStamp 200).baoRootHex).map CrossStoreVerifyResult.valid = .ok false := by
    decide +kernel
  rw [hresult] at hrun
  simp [Except.map, hvalid] at hrun

/-- And it accepts a second stamp at the time of the first. -/
theorem crossStore_valid_same_time :
    (∃ result, verifyCommitmentCrossStore
        (run CommitmentCall.exec exampleDir ([forcedStamp 100] ++ [forcedStamp 100]))
        (forcedStamp 100).baoRootHex = .ok result ∧ result.valid = true) ↔
      (forcedStamp 100).Fits (run CommitmentCall.exec exampleDir [forcedStamp 100]) exampleRoot := by
  have := Format.codec_lawful
  refine crossStore_valid_iff exampleDir_encoded (by decide) ?_ ?_
    (exists_of_isOk (by decide +kernel))
  · intro call hcall
    simp only [List.cons_append, List.nil_append, List.mem_cons, List.not_mem_nil, or_false,
      or_self] at hcall
    subst hcall
    exact parseBaoRoot_encode exampleRoot
  · intro call hcall
    simp only [List.cons_append, List.nil_append, List.mem_cons, List.not_mem_nil, or_false,
      or_self] at hcall
    subst hcall
    exact forcedStamp_untorn 100

end

end Lord.Commit
