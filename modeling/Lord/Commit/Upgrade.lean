import Lord.Commit.Timestamp

/-! Upgrading a timestamp: an enriched proof is fetched from the calendar, the order key moves with
it, and a first attested proof is recorded by a v2 entry of the breccia log. -/

namespace Lord.Commit

open Storage Ots

/-- How the upgrade of the calendar of the same process fails. -/
inductive UpgradeError where
  | notFound
  | proofBuild (err : Error)

/-- What an upgrade takes from outside: the calendar, how each step on the file system goes, and
whether the LTP mempool takes the digest. -/
structure UpgradeEnv where
  calendar : Option (Bytes32 → Except UpgradeError Bytes)
  http : HttpExchange
  createPendingDir : Result Unit
  writePending : Result Unit
  publish : Result Unit
  breccia : BrecciaEnv
  enqueue : Result Unit

structure UpgradeResult where
  baoRoot : String
  otsProofPath : String
  otsOrderKey : String
  /-- The stored proof bytes changed. -/
  upgraded : Bool
  deriving Repr, DecidableEq

def mapCalendarUpgradeError : UpgradeError → Error
  | .notFound => "calendar has not anchored this commitment yet"
  | .proofBuild err => err

def fetchUpgradeFromCalendar (http : HttpExchange) (upgradeUrl : String) : Result Bytes := do
  http.client.context "failed to build calendar HTTP client"
  let response ← http.response.context s!"failed to contact calendar `{upgradeUrl}`"
  if response.status = 404 then
    .error "calendar has not anchored this commitment yet"
  else if !response.isSuccess then
    .error s!"calendar `{upgradeUrl}` returned HTTP {response.statusLine}: {response.text}"
  else
    response.body

/-! ### The height of an attestation -/

mutual

/-- The height of the first Bitcoin attestation in depth-first order, `as u32`. -/
def attestationHeightFromStep : Step → Option UInt32
  | .mk (.attestation (.bitcoin height)) _ _ => some height.toUInt32
  | .mk _ _ next => attestationHeightFromSteps next

def attestationHeightFromSteps : List Step → Option UInt32
  | [] => none
  | child :: rest =>
    match attestationHeightFromStep child with
    | some height => some height
    | none => attestationHeightFromSteps rest

end

def attestationHeightFromProof [OtsCodec] (proof : Bytes) : Option UInt32 :=
  match OtsCodec.fromReader proof with
  | .error _ => none
  | .ok file => attestationHeightFromStep file.timestamp.firstStep

/-! ### The call -/

def brecciaHasV2ForRoot (dir : DataDir) (baoRoot : Bytes32) : Result Bool := do
  let records ← readBrecciaRecords dir
  .ok (records.any fun record =>
    match record with
    | .v1 _ => false
    | .v2 entry => entry.baoRoot = baoRoot)

/-- What an upgrade has when it starts to write. -/
structure StagedUpgrade where
  baoRootHex : String
  baoRoot : Bytes32
  /-- The row before the call. -/
  row : CommitmentMeta
  proofPath : String
  currentProof : Bytes
  proof : Bytes
  orderKey : Bytes

namespace StagedUpgrade

def updated (staged : StagedUpgrade) : CommitmentMeta :=
  { staged.row with otsOrderKey := some staged.orderKey }

theorem updated_otsOrderKey (staged : StagedUpgrade) :
    staged.updated.otsOrderKey = some staged.orderKey := rfl

theorem updated_baoRoot (staged : StagedUpgrade) {s : StorageStore}
    (h : s.getCommitment staged.baoRoot = some staged.row) :
    staged.updated.baoRoot = staged.baoRoot := by
  have hrow := StorageStore.baoRoot_of_getCommitment h
  exact hrow

def result (staged : StagedUpgrade) (upgraded : Bool) : UpgradeResult where
  baoRoot := staged.baoRootHex
  otsProofPath := staged.proofPath
  otsOrderKey := Hex.encode staged.orderKey
  upgraded

/-- The v2 entry of an attested proof. -/
def entry (staged : StagedUpgrade) (height : UInt32) : CommitmentEntryV2 where
  baoRoot := staged.baoRoot
  otsOrderKey := staged.orderKey
  timestampedAt := staged.row.timestampedAt.getD staged.row.createdAt
  carbonadoPath := staged.row.carbonadoPath
  attestationHeight := height
  attestationTxid := ""
  replicationTarget := 0

end StagedUpgrade

section

variable [OtsCodec]

/-- Record a first attested proof in the log and hand the digest to the mempool. -/
def maybeAppendBrecciaV2AndEnqueueLtp (dir : DataDir) (staged : StagedUpgrade) (env : UpgradeEnv) :
    Result Unit × DataDir :=
  match attestationHeightFromProof staged.proof with
  | none => (.ok (), dir)
  | some height =>
    match brecciaHasV2ForRoot dir staged.baoRoot with
    | .error err => (.error err, dir)
    | .ok true => (env.enqueue, dir)
    | .ok false =>
      match appendBreccia (brecciaPath dir) env.breccia dir.breccia true
          (encodeEntryV2 (staged.entry height)) "failed to append breccia v2 entry" with
      | (.error err, log) => (.error err, { dir with breccia := log })
      | (.ok (), log) => (env.enqueue, { dir with breccia := log })

/-- The end of a call whose proof and rows are in place. -/
def recordUpgrade (dir : DataDir) (staged : StagedUpgrade) (env : UpgradeEnv) (upgraded : Bool) :
    Result UpgradeResult × DataDir :=
  match maybeAppendBrecciaV2AndEnqueueLtp dir staged env with
  | (.error err, dir) => (.error err, dir)
  | (.ok (), dir) => (.ok (staged.result upgraded), dir)

/-- The move of the order key, when the proof has a new one. -/
def moveOrderKey (dir : DataDir) (staged : StagedUpgrade) : Result DataDir :=
  if staged.row.otsOrderKey = some staged.orderKey then
    .ok dir
  else do
    let store ← commitUpgradeOrderKey dir.store staged.baoRoot staged.row.otsOrderKey
      staged.updated staged.orderKey
    .ok { dir with store }

/-- The publication of the new proof, and the rollback of the move when it fails. -/
def publishUpgrade (dir : DataDir) (staged : StagedUpgrade) (env : UpgradeEnv) :
    Result Unit × DataDir :=
  let unpended := removeFile dir.pendingOts staged.proofPath
  match env.publish.context s!"failed to publish OTS proof `{dir.path}/{staged.proofPath}`" with
  | .ok () => (.ok (), { dir with
      ots := writeFile dir.ots staged.proofPath staged.proof
      pendingOts := unpended })
  | .error err =>
    if staged.row.otsOrderKey = some staged.orderKey then
      (.error err, { dir with pendingOts := unpended })
    else
      match rollbackTimestampLmdb dir.store staged.row staged.row.otsOrderKey staged.updated with
      | .error rollbackErr => (.error rollbackErr, { dir with pendingOts := unpended })
      | .ok store => (.error err, { dir with store, pendingOts := unpended })

/-- The writes of an upgrade. -/
def applyUpgrade (dir : DataDir) (staged : StagedUpgrade) (env : UpgradeEnv) :
    Result UpgradeResult × DataDir :=
  if staged.proof = staged.currentProof then
    match moveOrderKey dir staged with
    | .error err => (.error err, dir)
    | .ok dir => recordUpgrade dir staged env false
  else
    match env.createPendingDir with
    | .error err => (.error err, dir)
    | .ok () =>
      match env.writePending.context
          s!"failed to write pending OTS proof `{dir.path}/{staged.proofPath}`" with
      | .error err => (.error err, dir)
      | .ok () =>
        let pended :=
          { dir with pendingOts := writeFile dir.pendingOts staged.proofPath staged.proof }
        match moveOrderKey pended staged with
        | .error err =>
          (.error err, { dir with pendingOts := removeFile pended.pendingOts staged.proofPath })
        | .ok moved =>
          match publishUpgrade moved staged env with
          | (.error err, dir) => (.error err, dir)
          | (.ok (), dir) => recordUpgrade dir staged env true

end

section

variable [Digests] [OtsCodec]

def fetchUpgradedProof (env : UpgradeEnv) (calendarUpgradeUrl : String) (baoRoot : Bytes32) :
    Result Bytes :=
  match env.calendar with
  | some upgradeDigest =>
    match upgradeDigest (commitmentDigest32 baoRoot) with
    | .ok proof => .ok proof
    | .error err => .error (mapCalendarUpgradeError err)
  | none =>
    if calendarUpgradeUrl = "" then
      .error "calendar upgrade URL not configured"
    else
      fetchUpgradeFromCalendar env.http calendarUpgradeUrl

omit [Digests] in
def validateProofDigestBinding (proof expectedDigest : Bytes) : Result Unit := do
  let file ← Result.context (OtsCodec.fromReader proof) "failed to parse calendar OTS proof"
  if file.digestType ≠ .sha256 then
    .error "calendar proof uses unsupported digest type"
  else if file.timestamp.startDigest ≠ expectedDigest then
    .error "calendar proof does not bind to commitment digest"
  else
    .ok ()

/-- What an upgrade reads, fetches and derives before it writes. -/
def stageUpgrade (dir : DataDir) (baoRootHex calendarUpgradeUrl : String) (env : UpgradeEnv) :
    Outcome StagedUpgrade := do
  let baoRoot ← (parseBaoRoot baoRootHex).outcome
  let row ← okOr (dir.store.getCommitment baoRoot) (.err s!"unknown bao root `{baoRootHex}`")
  let proofPath ← okOr row.otsProofPath (.err s!"commitment `{baoRootHex}` is not timestamped")
  let currentProof ← okOr (dir.ots proofPath)
    (.err ⟨s!"failed to read OTS proof `{dir.path}/{proofPath}`", [noSuchFile]⟩)
  let proof ← (fetchUpgradedProof env calendarUpgradeUrl baoRoot).outcome
  (validateProofDigestBinding proof (commitmentDigest baoRoot)).outcome
  let orderKey ← orderKeyFromProofBytes proof
  .ok { baoRootHex, baoRoot, row, proofPath, currentProof, proof, orderKey }

/-- Fetch an enriched OTS proof from the calendar and update the stored file. -/
def upgradeCommitment (dir : DataDir) (baoRootHex calendarUpgradeUrl : String) (env : UpgradeEnv) :
    Outcome UpgradeResult × DataDir :=
  match stageUpgrade dir baoRootHex calendarUpgradeUrl env with
  | .error fault => (.error fault, dir)
  | .ok staged =>
    let applied := applyUpgrade dir staged env
    (applied.1.outcome, applied.2)

end

end Lord.Commit
