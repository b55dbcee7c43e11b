import Lord.Commit.Upgrade
import Lord.Storage.Verify

/-! The cross-store check of a commitment: its row, its proof file, its records in the breccia log
and its carbonado blob have to tell the same. -/

namespace Lord.Commit

open Storage Ots

/-! ### The records of a root -/

/-- The first v1 record of a root. -/
def brecciaV1 (records : List BrecciaRecord) (baoRoot : Bytes32) : Option CommitmentEntry :=
  records.findSome? fun record =>
    match record with
    | .v1 entry => if entry.baoRoot = baoRoot then some entry else none
    | .v2 _ => none

/-- The first v2 record of a root. -/
def brecciaV2 (records : List BrecciaRecord) (baoRoot : Bytes32) : Option CommitmentEntryV2 :=
  records.findSome? fun record =>
    match record with
    | .v1 _ => none
    | .v2 entry => if entry.baoRoot = baoRoot then some entry else none

section

variable {records : List BrecciaRecord} {baoRoot : Bytes32}

theorem brecciaV1_append_v1 {entry : CommitmentEntry} (h : entry.baoRoot = baoRoot) :
    brecciaV1 (records ++ [.v1 entry]) baoRoot = some ((brecciaV1 records baoRoot).getD entry) := by
  rw [brecciaV1, List.findSome?_append]
  cases hfirst : brecciaV1 records baoRoot with
  | none =>
    rw [brecciaV1] at hfirst
    simp [hfirst, h]
  | some first =>
    rw [brecciaV1] at hfirst
    simp [hfirst]

theorem brecciaV2_append_v1 (entry : CommitmentEntry) :
    brecciaV2 (records ++ [.v1 entry]) baoRoot = brecciaV2 records baoRoot := by
  simp [brecciaV2, List.findSome?_append]

theorem brecciaV2_append_v2 {entry : CommitmentEntryV2} (h : entry.baoRoot = baoRoot)
    (hnone : brecciaV2 records baoRoot = none) :
    brecciaV2 (records ++ [.v2 entry]) baoRoot = some entry := by
  rw [brecciaV2] at hnone
  simp [brecciaV2, List.findSome?_append, hnone, h]

end

/-! ### The check -/

/-- Result of the cross-store check. -/
structure CrossStoreVerifyResult where
  lmdbHasProofPath : Bool
  otsFileExists : Bool
  lmdbOrderKeyMatchesProof : Bool
  brecciaEntryFound : Bool
  brecciaMatchesLmdb : Bool
  brecciaV2Found : Bool
  brecciaAttestationHeightValid : Bool
  carbonadoFileExists : Bool
  carbonadoBindingValid : Bool
  valid : Bool
  mismatches : List String
  deriving Repr, DecidableEq

/-- A message when a check fails. -/
def mismatch (passed : Bool) (message : String) : List String := if passed then [] else [message]

def verifyLmdbOrderKey [OtsCodec] (row : CommitmentMeta) (proof : Bytes) :
    Outcome (Bool × List String) :=
  match row.otsOrderKey with
  | none => .ok (false, ["LMDB missing ots_order_key"])
  | some lmdbKey =>
    if proof.isEmpty then
      .ok (false, [])
    else
      match orderKeyFromProofBytes proof with
      | .ok proofKey =>
        let passed := proofKey == lmdbKey
        .ok (passed, mismatch passed "LMDB ots_order_key does not match OTS proof")
      | .error (.err _) => .ok (false, ["failed to derive order key from OTS proof"])
      | .error (.panic message) => .error (.panic message)

/-- The first v2 record decides, and the first v1 record when there is none. -/
def verifyBrecciaMatches (row : CommitmentMeta) (v1 : Option CommitmentEntry)
    (v2 : Option CommitmentEntryV2) : Bool × List String :=
  match v2, v1 with
  | some entry, _ =>
    let keyMatches := row.otsOrderKey == some entry.otsOrderKey
    let pathMatches := row.carbonadoPath == entry.carbonadoPath || entry.carbonadoPath == ""
    (keyMatches && pathMatches,
      mismatch keyMatches "breccia v2 ots_order_key does not match LMDB" ++
        mismatch pathMatches "breccia v2 carbonado_path does not match LMDB")
  | none, some entry =>
    let keyMatches := row.otsOrderKey == some entry.otsOrderKey
    let timeMatches := row.timestampedAt == some entry.timestampedAt
    let pathMatches := row.carbonadoPath == entry.carbonadoPath
    (keyMatches && timeMatches && pathMatches,
      mismatch keyMatches "breccia ots_order_key does not match LMDB" ++
        (mismatch timeMatches "breccia timestamped_at does not match LMDB" ++
          mismatch pathMatches "breccia carbonado_path does not match LMDB"))
  | none, none => (false, [])

def verifyBrecciaAttestationHeight (v2 : Option CommitmentEntryV2) (height : Option UInt32) :
    Bool × List String :=
  match v2, height with
  | some entry, some height =>
    let passed := entry.attestationHeight == height
    (passed,
      mismatch passed s!"breccia v2 attestation_height does not match OTS proof ({height})")
  | some _, none => (true, [])
  | none, some _ => (false, ["confirmed OTS attestation but breccia v2 entry missing"])
  | none, none => (true, [])

def carbonadoFileExists (dir : DataDir) (relativePath : String) : Bool :=
  match validateCarbonadoRelativePath relativePath with
  | .ok () => (dir.carbonado relativePath).isSome
  | .error _ => false

variable [Carbonado] [OtsCodec]

def verifyCarbonadoBinding (dir : DataDir) (baoRoot : Bytes32) (row : CommitmentMeta) :
    Bool × List String :=
  match verifyCarbonadoHeaderBinding dir row baoRoot with
  | .ok () => (true, [])
  | .error err => (false, [s!"carbonado header binding invalid: {err.alternate}"])

def verifyCrossStore (dir : DataDir) (baoRoot : Bytes32) (row : CommitmentMeta) (proof : Bytes) :
    Outcome CrossStoreVerifyResult := do
  let lmdbHasProofPath := row.otsProofPath.isSome
  let otsFileExists := (row.otsProofPath.bind dir.ots).isSome
  let orderKey ← verifyLmdbOrderKey row proof
  let records := (readBrecciaRecords dir).toOption.getD []
  let v1 := brecciaV1 records baoRoot
  let v2 := brecciaV2 records baoRoot
  let brecciaEntryFound := v1.isSome || v2.isSome
  let breccia := verifyBrecciaMatches row v1 v2
  let height := verifyBrecciaAttestationHeight v2 (attestationHeightFromProof proof)
  let fileExists := carbonadoFileExists dir row.carbonadoPath
  let binding := if fileExists then verifyCarbonadoBinding dir baoRoot row else (false, [])
  .ok {
    lmdbHasProofPath
    otsFileExists
    lmdbOrderKeyMatchesProof := orderKey.1
    brecciaEntryFound
    brecciaMatchesLmdb := breccia.1
    brecciaV2Found := v2.isSome
    brecciaAttestationHeightValid := height.1
    carbonadoFileExists := fileExists
    carbonadoBindingValid := binding.1
    valid := lmdbHasProofPath && otsFileExists && orderKey.1 && brecciaEntryFound && breccia.1 &&
      height.1 && fileExists && binding.1
    mismatches := mismatch lmdbHasProofPath "LMDB missing ots_proof_path" ++
      mismatch (!lmdbHasProofPath || otsFileExists) "OTS proof file missing on disk" ++
      orderKey.2 ++ mismatch brecciaEntryFound "breccia has no entry for bao_root" ++ breccia.2 ++
      height.2 ++ mismatch fileExists s!"carbonado file missing at `carbonado/{row.carbonadoPath}`" ++
      binding.2 }

/-- The recorded proof file; a row without a path has no bytes. -/
def readOtsProof (dir : DataDir) (row : CommitmentMeta) : Result Bytes :=
  match row.otsProofPath with
  | some proofPath => okOr (dir.ots proofPath)
    ⟨s!"failed to read OTS proof file `{proofPath}`", [noSuchFile]⟩
  | none => .ok []

/-- The cross-store half of `verify_commitment_full`, which reads the row and the proof file. -/
def verifyCommitmentCrossStore (dir : DataDir) (baoRootHex : String) :
    Outcome CrossStoreVerifyResult := do
  let baoRoot ← (parseBaoRoot baoRootHex).outcome
  let row ← okOr (dir.store.getCommitment baoRoot) (.err s!"unknown bao root `{baoRootHex}`")
  let proof ← (readOtsProof dir row).outcome
  verifyCrossStore dir baoRoot row proof

/-! ### What the check comes to on a stamped commitment -/

/-- The records of a root tell what its row and its proof tell. -/
def Reported (records : List BrecciaRecord) (baoRoot : Bytes32) (row : CommitmentMeta)
    (height : Option UInt32) : Prop :=
  match brecciaV2 records baoRoot, brecciaV1 records baoRoot with
  | some entry, _ => row.otsOrderKey = some entry.otsOrderKey ∧
    (row.carbonadoPath = entry.carbonadoPath ∨ entry.carbonadoPath = "") ∧
    (height = none ∨ some entry.attestationHeight = height)
  | none, some entry => row.otsOrderKey = some entry.otsOrderKey ∧
    row.timestampedAt = some entry.timestampedAt ∧ row.carbonadoPath = entry.carbonadoPath ∧
    height = none
  | none, none => False

/-- The row records a proof path, an order key and a time, and the proof at the path has the key. -/
structure Stamped (dir : DataDir) (row : CommitmentMeta) (proof : Bytes) : Prop where
  proof_eq : row.otsProofPath.bind dir.ots = some proof
  orderKey_eq : ∃ key, row.otsOrderKey = some key ∧ orderKeyFromProofBytes proof = .ok key
  timestampedAt_isSome : row.timestampedAt.isSome = true

section

variable {dir : DataDir} {baoRoot : Bytes32} {row : CommitmentMeta} {proof : Bytes}

omit [Carbonado] in
theorem verifyLmdbOrderKey_stamped [Digests] [LawfulOtsCodec] (h : Stamped dir row proof) :
    verifyLmdbOrderKey row proof = .ok (true, []) := by
  obtain ⟨key, hrow, hproof⟩ := h.orderKey_eq
  have hne : proof.isEmpty = false := by
    rw [List.isEmpty_eq_false_iff]
    rintro rfl
    cases hread : OtsCodec.fromReader [] with
    | ok file => exact LawfulOtsCodec.read_nil file hread
    | error err =>
      rw [orderKeyFromProofBytes, hread] at hproof
      cases hproof
  simp [verifyLmdbOrderKey, hrow, hne, hproof, mismatch]

omit [OtsCodec] in
theorem carbonadoFileExists_of_bound (h : verifyCarbonadoHeaderBinding dir row baoRoot = .ok ()) :
    carbonadoFileExists dir row.carbonadoPath = true := by
  obtain ⟨⟨⟩, hpath, h⟩ := bind_eq_ok.mp h
  obtain ⟨encoded, hencoded, -⟩ := bind_eq_ok.mp h
  rw [readCarbonado, okOr_eq_ok] at hencoded
  simp [carbonadoFileExists, hpath, hencoded]

omit [Carbonado] [OtsCodec] in
theorem verifyBreccia_reported (records : List BrecciaRecord) (height : Option UInt32) :
    (((brecciaV1 records baoRoot).isSome || (brecciaV2 records baoRoot).isSome) &&
        (verifyBrecciaMatches row (brecciaV1 records baoRoot) (brecciaV2 records baoRoot)).1 &&
        (verifyBrecciaAttestationHeight (brecciaV2 records baoRoot) height).1) = true ↔
      Reported records baoRoot row height := by
  unfold Reported
  cases brecciaV2 records baoRoot with
  | some entry =>
    cases height <;> simp [verifyBrecciaMatches, verifyBrecciaAttestationHeight, and_assoc]
  | none =>
    cases brecciaV1 records baoRoot with
    | some entry =>
      cases height <;> simp [verifyBrecciaMatches, verifyBrecciaAttestationHeight, and_assoc]
    | none => simp

/-- On a stamped commitment with an intact blob and a readable log, the check comes to what the
records tell. -/
theorem verifyCrossStore_valid_iff [Digests] [LawfulOtsCodec] {records : List BrecciaRecord}
    (h : Stamped dir row proof) (hbound : verifyCarbonadoHeaderBinding dir row baoRoot = .ok ())
    (hread : readBrecciaRecords dir = .ok records) :
    (∃ result, verifyCrossStore dir baoRoot row proof = .ok result ∧ result.valid = true) ↔
      Reported records baoRoot row (attestationHeightFromProof proof) := by
  have hpath : row.otsProofPath.isSome = true := by
    cases hnone : row.otsProofPath with
    | some path => rfl
    | none =>
      have hproof := h.proof_eq
      rw [hnone] at hproof
      cases hproof
  rw [← verifyBreccia_reported]
  simp only [verifyCrossStore, verifyLmdbOrderKey_stamped h, bind, Except.bind, hread,
    Except.toOption, Option.getD_some, Except.ok.injEq, exists_eq_left', hpath, h.proof_eq,
    Option.isSome_some, carbonadoFileExists_of_bound hbound, if_true, verifyCarbonadoBinding,
    hbound, Bool.true_and, Bool.and_true]

end

end Lord.Commit
