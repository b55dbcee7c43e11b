import Lord.Commit.BrecciaLog
import Lord.Commit.Entry
import Lord.Commit.OrderTxn
import Lord.Storage.DataDir

/-! Timestamping a commitment: the proof is fetched and staged, the two tables and the breccia log
are written, and the proof is published; a failure on the way rolls the tables back. -/

namespace Lord.Commit

open Storage Ots

/-! ### The calendar -/

/-- An HTTP response of a calendar. -/
structure HttpResponse where
  status : Nat
  /-- The status as it is shown in messages. -/
  statusLine : String
  body : Result Bytes
  /-- The body as text, empty when it cannot be read. -/
  text : String

/-- An HTTP exchange with a calendar: the client and what it receives. -/
structure HttpExchange where
  client : Result Unit
  response : Result HttpResponse

def HttpResponse.isSuccess (response : HttpResponse) : Bool :=
  200 ≤ response.status && response.status < 300

def submitToCalendar (http : HttpExchange) (calendarUrl : String) : Result Bytes := do
  http.client.context "failed to build calendar HTTP client"
  let response ← http.response.context s!"failed to contact calendar `{calendarUrl}`"
  if !response.isSuccess then
    .error s!"calendar `{calendarUrl}` returned HTTP {response.statusLine}"
  else
    response.body

/-! ### Proofs -/

section

variable [Digests]

/-- SHA-256 digest of the raw bao root bytes. -/
def commitmentDigest (baoRoot : Bytes32) : Bytes := Op.sha256.execute baoRoot.val

theorem length_commitmentDigest (baoRoot : Bytes32) : (commitmentDigest baoRoot).length = 32 :=
  Digests.length_sha256 baoRoot.val

/-- The commitment digest as an array. -/
def commitmentDigest32 (baoRoot : Bytes32) : Bytes32 :=
  ⟨commitmentDigest baoRoot, length_commitmentDigest baoRoot⟩

omit [Digests] in
def attestationStep (digest : Bytes) : Step :=
  .mk (.attestation (.pending "https://localhost.stub/opentimestamps")) digest []

def emptyAttestationChain (digest : Bytes) : Step :=
  .mk (.op .sha256) (Op.sha256.execute digest) [attestationStep (Op.sha256.execute digest)]

/-- The four branches of a stub proof: the attestation stands at the root's first byte modulo 4. -/
def stubTimestamp (digest : Bytes) (baoRoot : Bytes32) : Timestamp where
  startDigest := digest
  firstStep := .mk .fork digest ((List.range 4).map fun i =>
    if i = (baoRoot.val.headD 0).toNat % 4 then attestationStep digest
    else emptyAttestationChain digest)

/-- Build a deterministic stub proof for tests and `--dry-run`. -/
def stubProofBytes [OtsCodec] (digest : Bytes) (baoRoot : Bytes32) : Result Bytes :=
  match OtsCodec.toWriter ⟨.sha256, stubTimestamp digest baoRoot⟩ with
  | .ok bytes => .ok bytes
  | .error err => .error s!"failed to serialize stub OTS proof: {err}"

end

/-! ### The call -/

structure TimestampOptions where
  dryRun : Bool
  force : Bool
  calendarUrl : String

/-- What a timestamp takes from outside: the calendar of the same process or the HTTP exchange, the
clock and how each step on the file system goes. -/
structure TimestampEnv where
  calendar : Option (Bytes32 → Result Bytes)
  http : HttpExchange
  now : Result UInt64
  createPendingDir : Result Unit
  writePending : Result Unit
  breccia : BrecciaEnv
  publish : Result Unit

structure TimestampResult where
  baoRoot : String
  otsProofPath : String
  otsOrderKey : String
  timestampedAt : UInt64
  deriving Repr, DecidableEq

def brecciaPath (dir : DataDir) : String := dir.path ++ "/breccia/global.breccia"

/-- Read all breccia records (v1 and v2) from the append log. -/
def readBrecciaRecords (dir : DataDir) : Result (List BrecciaRecord) := do
  let blobs ← readAllBlobs (brecciaPath dir) dir.breccia
  blobs.mapM decodeBrecciaBlob

def brecciaContainsBaoRoot (dir : DataDir) (baoRoot : Bytes32) : Result Bool := do
  let records ← readBrecciaRecords dir
  .ok (records.any fun record => record.baoRoot = baoRoot)

/-- What a timestamp call has when it starts to write. -/
structure Staged where
  baoRootHex : String
  baoRoot : Bytes32
  /-- The row before the call. -/
  row : CommitmentMeta
  proof : Bytes
  orderKey : Bytes
  timestampedAt : UInt64

namespace Staged

def proofPath (staged : Staged) : String := s!"ots/{staged.baoRootHex}.ots"

def updated (staged : Staged) : CommitmentMeta :=
  { staged.row with
    otsProofPath := some staged.proofPath
    otsOrderKey := some staged.orderKey
    timestampedAt := some staged.timestampedAt }

theorem updated_otsOrderKey (staged : Staged) :
    staged.updated.otsOrderKey = some staged.orderKey := rfl

theorem updated_baoRoot (staged : Staged) {s : StorageStore}
    (h : s.getCommitment staged.baoRoot = some staged.row) :
    staged.updated.baoRoot = staged.baoRoot := by
  have hrow := StorageStore.baoRoot_of_getCommitment h
  exact hrow

def entry (staged : Staged) : CommitmentEntry where
  baoRoot := staged.baoRoot
  otsOrderKey := staged.orderKey
  timestampedAt := staged.timestampedAt
  carbonadoPath := staged.row.carbonadoPath

def result (staged : Staged) : TimestampResult where
  baoRoot := staged.baoRootHex
  otsProofPath := staged.proofPath
  otsOrderKey := Hex.encode staged.orderKey
  timestampedAt := staged.timestampedAt

end Staged

def repairBrecciaFromMeta (dir : DataDir) (baoRootHex : String) (row : CommitmentMeta)
    (env : BrecciaEnv) : Result TimestampResult × DataDir :=
  match row.otsOrderKey with
  | none => (.error "timestamped commitment is missing ots_order_key", dir)
  | some orderKey =>
    match row.otsProofPath with
    | none => (.error "timestamped commitment is missing ots_proof_path", dir)
    | some relativeProofPath =>
      let timestampedAt := row.timestampedAt.getD row.createdAt
      let entry : CommitmentEntry :=
        ⟨row.baoRoot, orderKey, timestampedAt, row.carbonadoPath⟩
      match appendBreccia (brecciaPath dir) env dir.breccia false (encodeEntry entry)
          "failed to append breccia entry during repair" with
      | (.error err, log) => (.error err, { dir with breccia := log })
      | (.ok (), log) =>
        (.ok { baoRoot := baoRootHex, otsProofPath := relativeProofPath,
               otsOrderKey := Hex.encode orderKey, timestampedAt }, { dir with breccia := log })

/-- The pending proof. -/
def writePendingOts (dir : DataDir) (staged : Staged) (env : TimestampEnv) : Result DataDir := do
  env.createPendingDir
  env.writePending.context
    s!"failed to write pending OTS proof `{dir.path}/{staged.proofPath}`"
  .ok { dir with pendingOts := writeFile dir.pendingOts staged.proofPath staged.proof }

/-- The transaction, the breccia append and the publication. -/
def publishTimestamp (dir : DataDir) (staged : Staged) (env : TimestampEnv) :
    Result Unit × DataDir :=
  match commitUpgradeOrderKey dir.store staged.baoRoot staged.row.otsOrderKey staged.updated
      staged.orderKey with
  | .error err => (.error err, dir)
  | .ok store =>
    match appendBreccia (brecciaPath dir) env.breccia dir.breccia false (encodeEntry staged.entry)
        "failed to append breccia entry" with
    | (.error err, log) => (.error err, { dir with store, breccia := log })
    | (.ok (), log) =>
      match env.publish.context s!"failed to publish OTS proof `{dir.path}/{staged.proofPath}`" with
      | .error err => (.error err, { dir with store, breccia := log })
      | .ok () => (.ok (), { dir with
          store
          breccia := log
          ots := writeFile dir.ots staged.proofPath staged.proof
          pendingOts := removeFile dir.pendingOts staged.proofPath })

/-- The writes of a timestamp, and the rollback when one of them fails. -/
def finishTimestamp (dir : DataDir) (staged : Staged) (env : TimestampEnv) :
    Result TimestampResult × DataDir :=
  match publishTimestamp dir staged env with
  | (.ok (), dir) => (.ok staged.result, dir)
  | (.error err, dir) =>
    let dir := { dir with pendingOts := removeFile dir.pendingOts staged.proofPath }
    match rollbackTimestampLmdb dir.store staged.row staged.row.otsOrderKey staged.updated with
    | .error rollbackErr => (.error rollbackErr, dir)
    | .ok store => (.error err, { dir with store })

theorem writePendingOts_ok {dir dir' : DataDir} {staged : Staged} {env : TimestampEnv} :
    writePendingOts dir staged env = .ok dir' ↔
      env.createPendingDir = .ok () ∧ env.writePending = .ok () ∧
        dir' = { dir with pendingOts := writeFile dir.pendingOts staged.proofPath staged.proof } := by
  unfold writePendingOts
  simp only [bind_eq_ok, Result.context_eq_ok, Unique.exists_iff, PUnit.default_eq_unit,
    Except.ok.injEq]
  refine and_congr_right fun _ => and_congr_right fun _ => eq_comm

section

variable [Digests] [OtsCodec]

/-- The proof of a call: a stub, or the answer of a calendar. -/
def obtainProof (options : TimestampOptions) (env : TimestampEnv) (baoRoot : Bytes32) :
    Result Bytes :=
  if options.dryRun then
    stubProofBytes (commitmentDigest baoRoot) baoRoot
  else
    match env.calendar with
    | some submitDigest =>
      (submitDigest (commitmentDigest32 baoRoot)).context "in-process calendar submit failed"
    | none => submitToCalendar env.http options.calendarUrl

/-- What a call fetches and derives before it writes. -/
def stageTimestamp (baoRootHex : String) (baoRoot : Bytes32) (row : CommitmentMeta)
    (options : TimestampOptions) (env : TimestampEnv) : Outcome Staged := do
  let proof ← (obtainProof options env baoRoot).outcome
  let orderKey ← orderKeyFromProofBytes proof
  let timestampedAt ← (env.now.context "system time before unix epoch").outcome
  .ok { baoRootHex, baoRoot, row, proof, orderKey, timestampedAt }

/-- Submit (or stub) an OTS proof for an existing commitment, update LMDB, append breccia. -/
def timestampCommitment (dir : DataDir) (baoRootHex : String) (options : TimestampOptions)
    (env : TimestampEnv) : Outcome TimestampResult × DataDir :=
  match parseBaoRoot baoRootHex with
  | .error err => (.error (.err err), dir)
  | .ok baoRoot =>
    match dir.store.getCommitment baoRoot with
    | none => (.error (.err s!"unknown bao root `{baoRootHex}`"), dir)
    | some row =>
      if row.isTimestamped && !options.force then
        match brecciaContainsBaoRoot dir baoRoot with
        | .error err => (.error (.err err), dir)
        | .ok true =>
          (.error (.err (s!"commitment `{baoRootHex}` is already timestamped; " ++
            "pass --force to re-timestamp")), dir)
        | .ok false =>
          let repaired := repairBrecciaFromMeta dir baoRootHex row env.breccia
          (repaired.1.outcome, repaired.2)
      else
        match stageTimestamp baoRootHex baoRoot row options env with
        | .error fault => (.error fault, dir)
        | .ok staged =>
          match writePendingOts dir staged env with
          | .error err => (.error (.err err), dir)
          | .ok dir =>
            let finished := finishTimestamp dir staged env
            (finished.1.outcome, finished.2)

/-! ### What a call submits -/

/-- The call gets as far as its writes with a proof of this order key for this root: the row of the
root is there and may be stamped, the proof is obtained and parsed, the clock is set and the pending
proof is written. -/
def Submits (dir : DataDir) (baoRootHex : String) (options : TimestampOptions) (env : TimestampEnv)
    (baoRoot : Bytes32) (orderKey : Bytes) : Prop :=
  parseBaoRoot baoRootHex = .ok baoRoot ∧
  (∃ row, dir.store.getCommitment baoRoot = some row ∧
    (row.isTimestamped = false ∨ options.force = true)) ∧
  (∃ proof, obtainProof options env baoRoot = .ok proof ∧
    orderKeyFromProofBytes proof = .ok orderKey) ∧
  (∃ now, env.now = .ok now) ∧ env.createPendingDir = .ok () ∧ env.writePending = .ok ()

/-- What a call does, seen from its writes: either it gets as far as them, or it leaves the tables,
the proofs and, unless it repairs it, the log. -/
inductive TimestampRun (dir : DataDir) (baoRootHex : String) (options : TimestampOptions)
    (env : TimestampEnv) : Outcome TimestampResult × DataDir → Prop
  | rejected (fault : Fault) (hnot : ∀ baoRoot key, ¬Submits dir baoRootHex options env baoRoot key) :
    TimestampRun dir baoRootHex options env (.error fault, dir)
  | repaired (baoRoot : Bytes32) (row : CommitmentMeta)
    (hnot : ∀ baoRoot key, ¬Submits dir baoRootHex options env baoRoot key)
    (hroot : parseBaoRoot baoRootHex = .ok baoRoot)
    (hrow : dir.store.getCommitment baoRoot = some row) (hstamped : row.isTimestamped = true)
    (hforce : options.force = false)
    (habsent : brecciaContainsBaoRoot dir baoRoot = .ok false) :
    TimestampRun dir baoRootHex options env
      ((repairBrecciaFromMeta dir baoRootHex row env.breccia).1.outcome,
        (repairBrecciaFromMeta dir baoRootHex row env.breccia).2)
  | written (staged : Staged) (pending : String → Option Bytes)
    (hsubmits : ∀ baoRoot key, Submits dir baoRootHex options env baoRoot key ↔
      baoRoot = staged.baoRoot ∧ key = staged.orderKey)
    (hhex : staged.baoRootHex = baoRootHex)
    (hrow : dir.store.getCommitment staged.baoRoot = some staged.row)
    (hproof : obtainProof options env staged.baoRoot = .ok staged.proof)
    (hkey : orderKeyFromProofBytes staged.proof = .ok staged.orderKey)
    (hnow : env.now = .ok staged.timestampedAt) :
    TimestampRun dir baoRootHex options env
      ((finishTimestamp { dir with pendingOts := pending } staged env).1.outcome,
        (finishTimestamp { dir with pendingOts := pending } staged env).2)

theorem stageTimestamp_ok {baoRootHex : String} {baoRoot : Bytes32} {row : CommitmentMeta}
    {options : TimestampOptions} {env : TimestampEnv} {staged : Staged} :
    stageTimestamp baoRootHex baoRoot row options env = .ok staged ↔
      obtainProof options env baoRoot = .ok staged.proof ∧
      orderKeyFromProofBytes staged.proof = .ok staged.orderKey ∧
      env.now = .ok staged.timestampedAt ∧ staged.baoRootHex = baoRootHex ∧
      staged.baoRoot = baoRoot ∧ staged.row = row := by
  unfold stageTimestamp
  simp only [bind_eq_ok, Result.outcome_eq_ok, Result.context_eq_ok]
  constructor
  · rintro ⟨proof, hproof, key, hkey, now, hnow, hstaged⟩
    cases hstaged
    exact ⟨hproof, hkey, hnow, rfl, rfl, rfl⟩
  · rintro ⟨hproof, hkey, hnow, rfl, rfl, rfl⟩
    exact ⟨_, hproof, _, hkey, _, hnow, rfl⟩

/-- Every call is one of the three runs. -/
theorem timestampCommitment_run (dir : DataDir) (baoRootHex : String) (options : TimestampOptions)
    (env : TimestampEnv) :
    TimestampRun dir baoRootHex options env (timestampCommitment dir baoRootHex options env) := by
  unfold timestampCommitment
  cases hroot : parseBaoRoot baoRootHex with
  | error err =>
    refine .rejected _ fun r key h => ?_
    rw [h.1] at hroot
    cases hroot
  | ok baoRoot =>
    dsimp only
    have hsame : ∀ r key, Submits dir baoRootHex options env r key → r = baoRoot := by
      intro r key h
      rw [h.1] at hroot
      exact Except.ok.inj hroot
    cases hrow : dir.store.getCommitment baoRoot with
    | none =>
      refine .rejected _ fun r key h => ?_
      obtain rfl := hsame r key h
      obtain ⟨row, hsome, -⟩ := h.2.1
      rw [hrow] at hsome
      cases hsome
    | some row =>
      dsimp only
      cases hgate : row.isTimestamped && !options.force with
      | true =>
        obtain ⟨hstamped, hforce⟩ := Bool.and_eq_true_iff.mp hgate
        have hnot : ∀ r key, ¬Submits dir baoRootHex options env r key := by
          intro r key h
          obtain rfl := hsame r key h
          obtain ⟨row', hsome, hopen⟩ := h.2.1
          rw [hrow] at hsome
          cases hsome
          simp [hstamped] at hopen
          simp [hopen] at hforce
        simp only [if_true]
        cases hcontains : brecciaContainsBaoRoot dir baoRoot with
        | error err => exact .rejected _ hnot
        | ok found =>
          cases found with
          | true => exact .rejected _ hnot
          | false => exact .repaired baoRoot row hnot hroot hrow hstamped (by simpa using hforce) hcontains
      | false =>
        have hopen : row.isTimestamped = false ∨ options.force = true := by
          cases hstamped : row.isTimestamped <;> simp_all
        simp only [Bool.false_eq_true, if_false]
        cases hstage : stageTimestamp baoRootHex baoRoot row options env with
        | error fault =>
          refine .rejected _ fun r key h => ?_
          obtain rfl := hsame r key h
          obtain ⟨-, -, ⟨proof, hproof, hkey⟩, ⟨now, hnow⟩, -, -⟩ := h
          have hok : stageTimestamp baoRootHex r row options env =
              .ok ⟨baoRootHex, r, row, proof, key, now⟩ :=
            stageTimestamp_ok.mpr ⟨hproof, hkey, hnow, rfl, rfl, rfl⟩
          rw [hstage] at hok
          cases hok
        | ok staged =>
          obtain ⟨hproof, hkey, hnow, hhex, rfl, hstagedRow⟩ := stageTimestamp_ok.mp hstage
          dsimp only
          cases hpending : writePendingOts dir staged env with
          | error err =>
            refine .rejected _ fun r key h => ?_
            obtain ⟨-, -, -, -, hcreate, hwrite⟩ := h
            rw [writePendingOts_ok.mpr ⟨hcreate, hwrite, rfl⟩] at hpending
            cases hpending
          | ok dir' =>
            obtain ⟨hcreate, hwrite, rfl⟩ := writePendingOts_ok.mp hpending
            refine .written staged _ (fun r key => ⟨fun h => ?_, ?_⟩) hhex (hstagedRow ▸ hrow) hproof
              hkey hnow
            · obtain rfl := hsame r key h
              obtain ⟨-, -, ⟨proof, hproof', hkey'⟩, -⟩ := h
              rw [hproof] at hproof'
              cases hproof'
              rw [hkey] at hkey'
              exact ⟨rfl, (Except.ok.inj hkey').symm⟩
            · rintro ⟨rfl, rfl⟩
              exact ⟨hroot, ⟨row, hrow, hopen⟩, ⟨_, hproof, hkey⟩, ⟨_, hnow⟩, hcreate, hwrite⟩

end

/-! ### Runs without faults -/

/-- A file system without faults, and no calendar. -/
def exampleTimestampEnv (now : UInt64) : TimestampEnv where
  calendar := none
  http := ⟨.ok (), .error "connection refused"⟩
  now := .ok now
  createPendingDir := .ok ()
  writePending := .ok ()
  breccia := ⟨.ok (), .ok (), none, none, none⟩
  publish := .ok ()

def dryRun : TimestampOptions := ⟨true, false, ""⟩

end Lord.Commit
