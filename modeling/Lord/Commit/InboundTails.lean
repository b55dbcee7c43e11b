import Lord.Commit.CrossStoreRuns
import Lord.Commit.LogRuns
import Lord.Ltp.Handler
import Lord.Ltp.TornAppends

/-! The import of staged breccia tails of peers, and the height that a later upgrade finds recorded:
the first v2 record of a root is the one that counts. -/

namespace Lord.Commit

open Storage Ots Ltp

/-! ### The import -/

section

variable [Digests] [OtsCodec]

/-- The entry of a staged tail of this height. -/
def tailEntry (tail : BrecciaTailPayload) (row : CommitmentMeta) (height : UInt32) :
    CommitmentEntryV2 where
  baoRoot := tail.baoRoot
  otsOrderKey := tail.otsOrderKey
  timestampedAt := row.timestampedAt.getD row.createdAt
  carbonadoPath := row.carbonadoPath
  attestationHeight := height
  attestationTxid := tail.attestationTxid.getD ""
  replicationTarget := 0

/-- The height of the local proof of a row, when it is attested. -/
def localProofHeight (dir : DataDir) (row : CommitmentMeta) : Option UInt32 :=
  (row.otsProofPath.bind dir.ots).bind attestationHeightFromProof

/-- Append a v2 entry, without a message in front of a failed append. -/
def appendTail (path : String) (env : BrecciaEnv) (log : Option Bytes) (entry : CommitmentEntryV2) :
    Result Unit × Option Bytes :=
  match openOrCreateBreccia path env log with
  | (.error err, log) => (.error err, log)
  | (.ok (), log) =>
    match ensureV2Header env (log.getD []) with
    | (.error err, bytes) => (.error err, some bytes)
    | (.ok (), bytes) =>
      let appended := appendBlob env bytes (encodeEntryV2 entry)
      (appended.1, some appended.2)

/-- One staged tail: whether it is imported. -/
def importInboundTail (dir : DataDir) (env : BrecciaEnv) (record : InboundTailRecord) :
    Result Bool × DataDir :=
  let tail := record.tail
  match validateLtpFrameVersion record.frame with
  | .error _ => (.ok false, dir)
  | .ok () =>
    match validateBrecciaTailPayload tail with
    | .error _ => (.ok false, dir)
    | .ok () =>
      match tail.attestationHeight with
      | none => (.ok false, dir)
      | some height =>
        match brecciaHasV2ForRoot dir tail.baoRoot with
        | .error err => (.error err, dir)
        | .ok true => (.ok false, dir)
        | .ok false =>
          match dir.store.getCommitment tail.baoRoot with
          | none => (.ok false, dir)
          | some row =>
            if row.otsOrderKey ≠ some tail.otsOrderKey then
              (.ok false, dir)
            else if (localProofHeight dir row).any (· ≠ height) then
              (.ok false, dir)
            else
              match appendTail (brecciaPath dir) env dir.breccia (tailEntry tail row height) with
              | (.error err, log) => (.error err, { dir with breccia := log })
              | (.ok (), log) => (.ok true, { dir with breccia := log })

/-- Merge staged inbound breccia tails, each with how its append goes. -/
def importInboundTails (dir : DataDir) : List (InboundTailRecord × BrecciaEnv) → Result Nat × DataDir
  | [] => (.ok 0, dir)
  | (record, env) :: rest =>
    match importInboundTail dir env record with
    | (.error err, dir) => (.error err, dir)
    | (.ok imported, dir) =>
      match importInboundTails dir rest with
      | (.error err, dir) => (.error err, dir)
      | (.ok count, dir) => (.ok (count + if imported then 1 else 0), dir)

/-! ### What an import records -/

/-- The height that a staged tail would record of its root, when its checks pass. -/
def importHeight (dir : DataDir) (record : InboundTailRecord) : Option UInt32 :=
  if record.frame.version = ltpFrameVersion ∧
      record.tail.startDigest = Ltp.commitmentDigest record.tail.baoRoot then
    record.tail.attestationHeight.bind fun height =>
      (dir.store.getCommitment record.tail.baoRoot).bind fun row =>
        if row.otsOrderKey = some record.tail.otsOrderKey ∧
            ¬(localProofHeight dir row).any (· ≠ height) then
          some height
        else
          none
  else
    none

/-- The height of the first staged tail of a root that passes its checks. -/
def firstImportHeight (dir : DataDir) (baoRoot : Bytes32)
    (staged : List (InboundTailRecord × BrecciaEnv)) : Option UInt32 :=
  staged.findSome? fun entry =>
    if entry.1.tail.baoRoot = baoRoot then importHeight dir entry.1 else none

/-! ### Successful appends -/

omit [Digests] [OtsCodec] in
/-- An append with a message in front of its error leaves what one without leaves. -/
theorem appendBreccia_appendTail (path : String) (env : BrecciaEnv) (log : Option Bytes)
    (entry : CommitmentEntryV2) (message : String) :
    (appendBreccia path env log true (encodeEntryV2 entry) message).2 =
        (appendTail path env log entry).2 ∧
      ((appendBreccia path env log true (encodeEntryV2 entry) message).1 = .ok () ↔
        (appendTail path env log entry).1 = .ok ()) := by
  unfold appendBreccia appendTail
  rcases openOrCreateBreccia path env log with ⟨result, opened⟩
  cases result with
  | error err => exact ⟨rfl, Iff.rfl⟩
  | ok _ =>
    dsimp only
    rw [if_pos rfl]
    rcases ensureV2Header env (opened.getD []) with ⟨result, bytes⟩
    cases result with
    | error err => exact ⟨rfl, Iff.rfl⟩
    | ok _ => exact ⟨rfl, Result.context_eq_ok⟩

omit [Digests] [OtsCodec] in
/-- A successful append of a v2 entry adds its record. -/
theorem appendV2_ok_records {path : String} {env : BrecciaEnv} {log : Option Bytes}
    {records : List BrecciaRecord} (h : HoldsRecords log records) {entry : CommitmentEntryV2}
    {message : String}
    (hok : (appendBreccia path env log true (encodeEntryV2 entry) message).1 = .ok ()) :
    HoldsRecords (appendBreccia path env log true (encodeEntryV2 entry) message).2
      (records ++ [.v2 entry]) := by
  have hsame := appendBreccia_ok hok
  have hdecode : (encodeEntryV2 entry).length < 256 ^ 8 →
      decodeBrecciaBlob (encodeEntryV2 entry) = .ok (.v2 entry) :=
    fun hlen =>
      have ⟨hkey, hpath, htxid⟩ := length_encodeEntryV2_lt hlen
      decodeBrecciaBlob_encodeEntryV2 hkey hpath htxid
  rcases appendBreccia_records path h env.sound_untorn true message hdecode with
    hadded | ⟨-, hne⟩
  · exact hsame ▸ hadded
  · exact absurd (hsame ▸ hok) hne

omit [Digests] in
/-- A successful end of an upgrade has recorded its proof. -/
theorem recordUpgrade_ok_records {dir : DataDir} {staged : StagedUpgrade} {env : UpgradeEnv}
    {upgraded : Bool} {records : List BrecciaRecord} (hlog : HoldsRecords dir.breccia records)
    {result : UpgradeResult} (hok : (recordUpgrade dir staged env upgraded).1 = .ok result) :
    HoldsRecords (recordUpgrade dir staged env upgraded).2.breccia
      (staged.records records (attestationHeightFromProof staged.proof)) := by
  have hsame : recordUpgrade dir staged { env with breccia := env.breccia.sound } upgraded =
      recordUpgrade dir staged env upgraded := by
    unfold recordUpgrade maybeAppendBrecciaV2AndEnqueueLtp at hok ⊢
    cases hheight : attestationHeightFromProof staged.proof with
    | none => rfl
    | some height =>
      rw [brecciaHasV2ForRoot_eq hlog] at hok ⊢
      cases hfirst : (brecciaV2 records staged.baoRoot).isSome with
      | true => rfl
      | false =>
        rw [hheight, hfirst] at hok
        have hone : (appendBreccia (brecciaPath dir) env.breccia dir.breccia true
            (encodeEntryV2 (staged.entry height)) "failed to append breccia v2 entry").1 =
              .ok () := by
          rcases hrun : appendBreccia (brecciaPath dir) env.breccia dir.breccia true
            (encodeEntryV2 (staged.entry height)) "failed to append breccia v2 entry" with
            ⟨result, log⟩
          cases result with
          | ok _ => rfl
          | error err => simp [hrun] at hok
        have hsound := appendBreccia_ok hone
        simp only [BrecciaEnv.sound, hsound]
  have hwhole := (@recordUpgrade_records _ dir staged
    { env with breccia := env.breccia.sound } upgraded records hlog
    env.breccia.sound_untorn).2 result (by rw [hsame]; exact hok)
  rwa [hsame] at hwhole

/-! ### The first v2 record after an import -/

/-- The height of the first v2 record of a root. -/
def recordedHeight (records : List BrecciaRecord) (baoRoot : Bytes32) : Option UInt32 :=
  (brecciaV2 records baoRoot).map CommitmentEntryV2.attestationHeight

omit [Digests] [OtsCodec] in
/-- A v2 record counts for its root, as long as there is none before it. -/
theorem recordedHeight_append_v2 (records : List BrecciaRecord) (entry : CommitmentEntryV2)
    (baoRoot : Bytes32) :
    recordedHeight (records ++ [.v2 entry]) baoRoot = (recordedHeight records baoRoot).or
      (if entry.baoRoot = baoRoot then some entry.attestationHeight else none) := by
  unfold recordedHeight brecciaV2
  rw [List.findSome?_append]
  cases List.findSome? _ records with
  | some first => rfl
  | none => by_cases hroot : entry.baoRoot = baoRoot <;> simp [hroot]

omit [Digests] [OtsCodec] in
/-- A root without a v2 record has no recorded height. -/
theorem recordedHeight_isSome (records : List BrecciaRecord) (baoRoot : Bytes32) :
    (recordedHeight records baoRoot).isSome = (brecciaV2 records baoRoot).isSome := by
  simp [recordedHeight]

/-- A tail whose import returns adds a record when its checks pass and its root has none yet. -/
theorem importInboundTail_ok {dir : DataDir} {env : BrecciaEnv} {record : InboundTailRecord}
    {records : List BrecciaRecord} (hlog : HoldsRecords dir.breccia records) {imported : Bool}
    (hok : (importInboundTail dir env record).1 = .ok imported) :
    ∃ log records', (importInboundTail dir env record).2 = { dir with breccia := log } ∧
      HoldsRecords log records' ∧ ∀ baoRoot, recordedHeight records' baoRoot =
        (recordedHeight records baoRoot).or
          (if record.tail.baoRoot = baoRoot then importHeight dir record else none) := by
  -- a tail that leaves the log alone is one whose checks fail, or whose root has a record
  have hskip : (importInboundTail dir env record).2 = dir →
      (importHeight dir record = none ∨
        (recordedHeight records record.tail.baoRoot).isSome) →
      ∃ log records', (importInboundTail dir env record).2 = { dir with breccia := log } ∧
        HoldsRecords log records' ∧ ∀ baoRoot, recordedHeight records' baoRoot =
          (recordedHeight records baoRoot).or
            (if record.tail.baoRoot = baoRoot then importHeight dir record else none) := by
    intro hsame hnone
    refine ⟨dir.breccia, records, hsame, hlog, fun baoRoot => ?_⟩
    split
    · rename_i hroot
      subst hroot
      rcases hnone with hnone | hsome
      · rw [hnone, Option.or_none]
      · exact (Option.or_eq_left_of_isSome hsome).symm
    · rw [Option.or_none]
  have hv2 := brecciaHasV2ForRoot_eq hlog record.tail.baoRoot
  by_cases hversion : record.frame.version = ltpFrameVersion
  case neg =>
    refine hskip ?_ (.inl (by simp [importHeight, hversion]))
    simp [importInboundTail, validateLtpFrameVersion, hversion]
  by_cases hdigest : record.tail.startDigest = Ltp.commitmentDigest record.tail.baoRoot
  case neg =>
    refine hskip ?_ (.inl (by simp [importHeight, hdigest]))
    simp [importInboundTail, validateLtpFrameVersion, hversion, validateBrecciaTailPayload, hdigest]
  cases hheight : record.tail.attestationHeight with
  | none =>
    refine hskip ?_ (.inl (by simp [importHeight, hheight]))
    simp [importInboundTail, validateLtpFrameVersion, hversion, validateBrecciaTailPayload,
      hdigest, hheight]
  | some height =>
    cases hfirst : (brecciaV2 records record.tail.baoRoot).isSome with
    | true =>
      rw [hfirst] at hv2
      refine hskip ?_ (.inr (by rw [recordedHeight_isSome, hfirst]))
      simp [importInboundTail, validateLtpFrameVersion, hversion, validateBrecciaTailPayload,
        hdigest, hheight, hv2]
    | false =>
      rw [hfirst] at hv2
      cases hrow : dir.store.getCommitment record.tail.baoRoot with
      | none =>
        refine hskip ?_ (.inl (by simp [importHeight, hheight, hrow]))
        simp [importInboundTail, validateLtpFrameVersion, hversion, validateBrecciaTailPayload,
          hdigest, hheight, hv2, hrow]
      | some row =>
        by_cases hkey : row.otsOrderKey = some record.tail.otsOrderKey
        case neg =>
          refine hskip ?_ (.inl (by simp [importHeight, hheight, hrow, hkey]))
          simp [importInboundTail, validateLtpFrameVersion, hversion, validateBrecciaTailPayload,
            hdigest, hheight, hv2, hrow, hkey]
        by_cases hproof : (localProofHeight dir row).any (· ≠ height) = true
        case pos =>
          refine hskip ?_ (.inl ?_)
          case refine_2 =>
            rw [importHeight, if_pos ⟨hversion, hdigest⟩, hheight, Option.bind_some, hrow,
              Option.bind_some, if_neg fun h => h.2 hproof]
          simp only [importInboundTail, validateLtpFrameVersion, hversion, ne_eq,
            not_true_eq_false, if_false, validateBrecciaTailPayload, hdigest, hheight, hv2, hrow,
            hkey]
          rw [if_pos hproof]
        have himport : importHeight dir record = some height := by
          rw [importHeight, if_pos ⟨hversion, hdigest⟩, hheight, Option.bind_some, hrow,
            Option.bind_some, if_pos ⟨hkey, hproof⟩]
        have hrun : importInboundTail dir env record =
            match appendTail (brecciaPath dir) env dir.breccia
              (tailEntry record.tail row height) with
            | (.error err, log) => (.error err, { dir with breccia := log })
            | (.ok (), log) => (.ok true, { dir with breccia := log }) := by
          simp only [importInboundTail, validateLtpFrameVersion, hversion, ne_eq,
            not_true_eq_false, if_false, validateBrecciaTailPayload, hdigest, hheight, hv2, hrow,
            hkey]
          rw [if_neg hproof]
        rw [hrun] at hok ⊢
        obtain ⟨hlogEq, hokIff⟩ := appendBreccia_appendTail (brecciaPath dir) env dir.breccia
          (tailEntry record.tail row height) ""
        have hadded := @appendV2_ok_records (brecciaPath dir) env dir.breccia records hlog
          (tailEntry record.tail row height) ""
        rcases happend : appendTail (brecciaPath dir) env dir.breccia
          (tailEntry record.tail row height) with ⟨result, log⟩
        rw [happend] at hok hlogEq hokIff
        cases result with
        | error err => cases hok
        | ok _ =>
          have hholds := hadded (hokIff.mpr rfl)
          rw [hlogEq] at hholds
          refine ⟨log, _, rfl, hholds, fun baoRoot => ?_⟩
          rw [recordedHeight_append_v2, himport]
          rfl

/-- An import that returns leaves the height that a root had, or else that of its first tail whose
checks pass. -/
theorem importInboundTails_ok {dir : DataDir} {staged : List (InboundTailRecord × BrecciaEnv)}
    {records : List BrecciaRecord} (hlog : HoldsRecords dir.breccia records) {count : Nat}
    (hok : (importInboundTails dir staged).1 = .ok count) :
    ∃ log records', (importInboundTails dir staged).2 = { dir with breccia := log } ∧
      HoldsRecords log records' ∧ ∀ baoRoot, recordedHeight records' baoRoot =
        (recordedHeight records baoRoot).or (firstImportHeight dir baoRoot staged) := by
  induction staged generalizing dir records count with
  | nil => exact ⟨dir.breccia, records, rfl, hlog, fun baoRoot => by simp [firstImportHeight]⟩
  | cons entry rest ih =>
    obtain ⟨record, env⟩ := entry
    have hfirst := @importInboundTail_ok _ _ dir env record records hlog
    rcases hrun : importInboundTail dir env record with ⟨result, next⟩
    rw [hrun] at hfirst
    cases result with
    | error err => simp [importInboundTails, hrun] at hok
    | ok imported =>
      obtain ⟨log, records', hnext, hlog', hheight⟩ := hfirst rfl
      dsimp only at hnext
      subst hnext
      rcases hrest : importInboundTails { dir with breccia := log } rest with ⟨result, last⟩
      cases result with
      | error err => simp [importInboundTails, hrun, hrest] at hok
      | ok count' =>
        obtain ⟨log'', records'', hlast, hlog'', hheight'⟩ :=
          @ih { dir with breccia := log } records' hlog' count' (by rw [hrest])
        rw [hrest] at hlast
        dsimp only at hlast
        subst hlast
        refine ⟨log'', records'', by simp [importInboundTails, hrun, hrest], hlog'', ?_⟩
        intro baoRoot
        rw [hheight' baoRoot, hheight baoRoot, Option.or_assoc]
        congr 1
        show _ = List.findSome? _ _
        rw [List.findSome?_cons]
        dsimp only
        cases (if record.tail.baoRoot = baoRoot then importHeight dir record else none) <;> rfl

/-! ### An import in front of an upgrade -/

/-- A tail of a log whose records do not decode is not appended. -/
theorem importInboundTail_undecodable {dir : DataDir} {env : BrecciaEnv}
    {record : InboundTailRecord} {err : Error} (hread : readBrecciaRecords dir = .error err) :
    (importInboundTail dir env record).2 = dir := by
  have hv2 : brecciaHasV2ForRoot dir record.tail.baoRoot = .error err := by
    rw [brecciaHasV2ForRoot, hread]
    rfl
  unfold importInboundTail
  dsimp only
  rw [hv2]
  split
  · rfl
  split
  · rfl
  split <;> rfl

theorem importInboundTails_undecodable {dir : DataDir}
    (staged : List (InboundTailRecord × BrecciaEnv)) {err : Error}
    (hread : readBrecciaRecords dir = .error err) : (importInboundTails dir staged).2 = dir := by
  induction staged with
  | nil => rfl
  | cons entry rest ih =>
    obtain ⟨record, env⟩ := entry
    have hfirst := @importInboundTail_undecodable _ _ dir env record _ hread
    rcases hrun : importInboundTail dir env record with ⟨result, next⟩
    rw [hrun] at hfirst
    dsimp only at hfirst
    subst hfirst
    cases result with
    | error _ => simp [importInboundTails, hrun]
    | ok imported =>
      rcases hrest : importInboundTails next rest with ⟨result, last⟩
      rw [hrest] at ih
      cases result with
      | error _ => simpa [importInboundTails, hrun, hrest] using ih
      | ok _ => simpa [importInboundTails, hrun, hrest] using ih

omit [Digests] in
/-- An attested proof is not recorded in a log whose records do not decode. -/
theorem recordUpgrade_undecodable {dir : DataDir} {staged : StagedUpgrade} {env : UpgradeEnv}
    {upgraded : Bool} {err : Error} (hread : readBrecciaRecords dir = .error err) {height : UInt32}
    (hheight : attestationHeightFromProof staged.proof = some height) :
    (recordUpgrade dir staged env upgraded).1 = .error err := by
  have hv2 : brecciaHasV2ForRoot dir staged.baoRoot = .error err := by
    rw [brecciaHasV2ForRoot, hread]
    rfl
  simp [recordUpgrade, maybeAppendBrecciaV2AndEnqueueLtp, hheight, hv2]

/-- The writes of a successful upgrade end with the record of its proof. -/
theorem upgradeCommitment_ok {dir : DataDir} {baoRootHex url : String} {env : UpgradeEnv}
    {result : UpgradeResult} (hok : (upgradeCommitment dir baoRootHex url env).1 = .ok result) :
    ∃ staged store pendingOts ots upgraded, parseBaoRoot baoRootHex = .ok staged.baoRoot ∧
      fetchUpgradedProof env url staged.baoRoot = .ok staged.proof ∧
      (recordUpgrade { dir with store, pendingOts, ots } staged env upgraded).1 = .ok result ∧
      (upgradeCommitment dir baoRootHex url env).2 =
        (recordUpgrade { dir with store, pendingOts, ots } staged env upgraded).2 := by
  unfold upgradeCommitment at hok ⊢
  cases hstage : stageUpgrade dir baoRootHex url env with
  | error fault =>
    rw [hstage] at hok
    cases hok
  | ok staged =>
    rw [hstage] at hok
    dsimp only at hok ⊢
    obtain ⟨hroot, hrow, -, hcurrent, hproof, -⟩ := stageUpgrade_ok hstage
    rcases applyUpgrade_row dir env hrow hcurrent with
      ⟨err, store, pendingOts, happly, -⟩ | ⟨store, pendingOts, ots, upgraded, happly, -, -⟩
    · rw [happly] at hok
      cases hok
    · refine ⟨staged, store, pendingOts, ots, upgraded, hroot, hproof, ?_, by rw [happly]⟩
      rw [happly] at hok
      exact Result.outcome_eq_ok.mp hok

/-- The v2 record of a root that the cross-store check uses. -/
def crossStoreV2 (dir : DataDir) (baoRoot : Bytes32) : Option CommitmentEntryV2 :=
  brecciaV2 ((readBrecciaRecords dir).toOption.getD []) baoRoot

/-- The height that the log has for a root, or else that of the first staged tail of the root that
passes its checks. -/
def heightBeforeUpgrade (dir : DataDir) (baoRoot : Bytes32)
    (staged : List (InboundTailRecord × BrecciaEnv)) : Option UInt32 :=
  ((crossStoreV2 dir baoRoot).map CommitmentEntryV2.attestationHeight).or
    (firstImportHeight dir baoRoot staged)

omit [Digests] [OtsCodec] in
theorem HoldsRecords.crossStoreV2 {dir : DataDir} {records : List BrecciaRecord}
    (h : HoldsRecords dir.breccia records) (baoRoot : Bytes32) :
    (crossStoreV2 dir baoRoot).map CommitmentEntryV2.attestationHeight =
      recordedHeight records baoRoot := by
  rw [Commit.crossStoreV2, h.readBrecciaRecords]
  rfl

omit [Digests] [OtsCodec] in
/-- An upgrade to an attested proof leaves the height that was recorded, or else records its own. -/
theorem StagedUpgrade.recordedHeight_records (staged : StagedUpgrade) (records : List BrecciaRecord)
    (height : UInt32) :
    recordedHeight (staged.records records (some height)) staged.baoRoot =
      (recordedHeight records staged.baoRoot).or (some height) := by
  unfold StagedUpgrade.records
  cases hfirst : brecciaV2 records staged.baoRoot with
  | some first => simp [recordedHeight, hfirst]
  | none =>
    dsimp only
    rw [recordedHeight_append_v2]
    exact congrArg _ (if_pos rfl)

/-- After an import of staged tails and an upgrade to a proof of this height, the log has this
height for the root exactly when it had no other, and neither had the first staged tail of the root
that passed its checks. -/
theorem upgradeHeight_recorded_iff {dir : DataDir} {blobs : List Bytes}
    (hlog : HoldsBlobs dir.breccia blobs) {staged : List (InboundTailRecord × BrecciaEnv)}
    {count : Nat} (himport : (importInboundTails dir staged).1 = .ok count)
    {baoRootHex url : String} {env : UpgradeEnv} {result : UpgradeResult}
    (hupgrade : (upgradeCommitment (importInboundTails dir staged).2 baoRootHex url env).1 =
      .ok result)
    {baoRoot : Bytes32} (hroot : parseBaoRoot baoRootHex = .ok baoRoot) {proof : Bytes}
    (hproof : fetchUpgradedProof env url baoRoot = .ok proof) {height : UInt32}
    (hheight : attestationHeightFromProof proof = some height) :
    (crossStoreV2 (upgradeCommitment (importInboundTails dir staged).2 baoRootHex url env).2
        baoRoot).map CommitmentEntryV2.attestationHeight = some height ↔
      ∀ before, heightBeforeUpgrade dir baoRoot staged = some before → before = height := by
  obtain ⟨upgrade, store, pendingOts, ots, upgraded, hroot', hproof', hrecord, hafter⟩ :=
    upgradeCommitment_ok hupgrade
  obtain rfl : upgrade.baoRoot = baoRoot := by simpa [hroot'] using hroot
  obtain rfl : upgrade.proof = proof := by simpa [hproof'] using hproof
  -- a log that does not decode would have failed the upgrade
  obtain ⟨records, hrecords⟩ : ∃ records, readBrecciaRecords dir = .ok records := by
    cases hread : readBrecciaRecords dir with
    | ok records => exact ⟨records, rfl⟩
    | error err =>
      rw [importInboundTails_undecodable staged hread] at hrecord
      have hread' : readBrecciaRecords { dir with store, pendingOts, ots } = .error err := hread
      rw [recordUpgrade_undecodable hread' hheight] at hrecord
      cases hrecord
  have hholds : HoldsRecords dir.breccia records := by
    obtain ⟨blobs', hread, hdecode⟩ := bind_eq_ok.mp hrecords
    rw [hlog.readAllBlobs] at hread
    cases hread
    exact ⟨blobs, hlog, hdecode⟩
  obtain ⟨log, imported, hdir, himported, hfirst⟩ := importInboundTails_ok hholds himport
  have hlogEq : ({ (importInboundTails dir staged).2 with store, pendingOts, ots } :
      DataDir).breccia = log := by
    rw [hdir]
  have hfinal := recordUpgrade_ok_records (hlogEq ▸ himported) hrecord
  rw [hafter, hfinal.crossStoreV2, hheight, upgrade.recordedHeight_records, hfirst,
    heightBeforeUpgrade, hholds.crossStoreV2]
  cases (recordedHeight records upgrade.baoRoot).or
    (firstImportHeight dir upgrade.baoRoot staged) <;> simp

end

/-! ### A tail in front of the upgrade -/

section

attribute [local instance] exampleCodec Format.sha256Digests Format.sha256Codec

/-- The example's commitment with its stub proof, which is pending. -/
def stampedDir : DataDir := (forcedStamp 100).exec exampleDir

/-- A tail of the example's root with the order key of its stub proof. -/
def earlyTail (height : UInt32) : InboundTailRecord where
  receivedAt := 150
  frame := ⟨ltpFrameVersion, LtpChain.regtest.chainId, .brecciaTail, [123, 125]⟩
  tail := ⟨exampleRoot, Ltp.commitmentDigest exampleRoot, [3], some height, none, none⟩

/-- A JSON in which every text tells this tail. -/
@[reducible]
def earlyJson (height : UInt32) : LtpJson where
  decodeFrame _ := .ok (earlyTail height).frame
  decodeBrecciaTail _ := .ok (earlyTail height).tail
  decodePaymentProof _ := .error "missing field `purpose`"
  decodeBaoChallenge _ := .error "missing field `sample_offset`"

/-- What the handler makes of a message that tells this tail, in a directory without staging files. -/
def handledEarly (height : UInt32) : Result Unit × InboundFiles :=
  @handleInboundMessage _ (earlyJson height) .regtest "/data"
    ⟨.ok 150, fun _ => .ok false, Staging.appending none⟩ [123, 125] noInbound

/-- A tail of any height is staged: only its digest is bound to the root. -/
theorem earlyTail_staged (height : UInt32) :
    (handledEarly height).1 = .ok () ∧
      inboundTails.read (Staging.readOnly inboundTails (earlyTail height)) "/data"
        ((handledEarly height).2 .tails) = .ok [earlyTail height] := by
  have hbound : validateBrecciaTailPayload (earlyTail height).tail = .ok () :=
    if_neg fun h => h rfl
  have hcheck : @checkInboundMessage _ (earlyJson height) .regtest
      ⟨.ok 150, fun _ => .ok false, Staging.appending none⟩ [123, 125] =
        (validateBrecciaTailPayload (earlyTail height).tail).bind fun _ =>
          .ok ⟨.tails, earlyTail height⟩ := rfl
  rw [hbound, Except.bind] at hcheck
  unfold handledEarly handleInboundMessage
  rw [hcheck]
  exact Staging.append_first rfl "/data"

def soundBreccia : BrecciaEnv := ⟨.ok (), .ok (), none, none, none⟩

/-- The proof of the example's root in this block. -/
def confirmedProof (height : UInt64) : Bytes :=
  Format.writeFile ⟨.sha256, Ots.Timestamp.mk (commitmentDigest exampleRoot)
    (.mk (.attestation (.bitcoin height)) (commitmentDigest exampleRoot) [])⟩

/-- A calendar that answers with this proof, and a file system without faults. -/
def confirmedEnv (height : UInt64) : UpgradeEnv where
  calendar := some fun _ => .ok (confirmedProof height)
  http := ⟨.ok (), .error "connection refused"⟩
  createPendingDir := .ok ()
  writePending := .ok ()
  publish := .ok ()
  breccia := soundBreccia
  enqueue := .ok ()

theorem stampedDir_log : HoldsBlobs stampedDir.breccia
    [encodeEntry ⟨exampleRoot, [3], 100, "blob.c12"⟩] :=
  .inr ⟨brecciaHeaderVersionV1, .inl rfl, by decide +kernel, by decide⟩

/-- The height of the tail stays recorded after the upgrade to a proof of another block. -/
theorem upgradeHeight_not_recorded :
    ((handledEarly 1).1 = .ok () ∧
        inboundTails.read (Staging.readOnly inboundTails (earlyTail 1)) "/data"
          ((handledEarly 1).2 .tails) = .ok [earlyTail 1]) ∧
      (importInboundTails stampedDir [(earlyTail 1, soundBreccia)]).1 = .ok 1 ∧
      (∃ result, (upgradeCommitment
        (importInboundTails stampedDir [(earlyTail 1, soundBreccia)]).2
        (Hex.encode exampleRoot.val) "" (confirmedEnv 800000)).1 = .ok result) ∧
      attestationHeightFromProof (confirmedProof 800000) = some 800000 ∧
      (crossStoreV2 (upgradeCommitment
        (importInboundTails stampedDir [(earlyTail 1, soundBreccia)]).2
        (Hex.encode exampleRoot.val) "" (confirmedEnv 800000)).2 exampleRoot).map
          CommitmentEntryV2.attestationHeight = some 1 :=
  ⟨earlyTail_staged 1, by decide +kernel, exists_of_isOk (by decide +kernel), by decide +kernel,
    by decide +kernel⟩

/-- And a tail of the height of the proof leaves it recorded. -/
theorem upgradeHeight_recorded_same :
    (crossStoreV2 (upgradeCommitment
        (importInboundTails stampedDir [(earlyTail 800000, soundBreccia)]).2
        (Hex.encode exampleRoot.val) "" (confirmedEnv 800000)).2 exampleRoot).map
          CommitmentEntryV2.attestationHeight = some 800000 ↔
      ∀ before, heightBeforeUpgrade stampedDir exampleRoot [(earlyTail 800000, soundBreccia)] =
        some before → before = 800000 := by
  have ⟨result, hresult⟩ := exists_of_isOk (show ((upgradeCommitment
    (importInboundTails stampedDir [(earlyTail 800000, soundBreccia)]).2
    (Hex.encode exampleRoot.val) "" (confirmedEnv 800000)).1).isOk = true by decide +kernel)
  exact upgradeHeight_recorded_iff stampedDir_log
    (show (importInboundTails stampedDir [(earlyTail 800000, soundBreccia)]).1 = .ok 1 by
      decide +kernel)
    hresult (parseBaoRoot_encode exampleRoot)
    (show fetchUpgradedProof (confirmedEnv 800000) "" exampleRoot = .ok (confirmedProof 800000)
      from rfl)
    (by decide +kernel)

end

end Lord.Commit
