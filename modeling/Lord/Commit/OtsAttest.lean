import Lord.Ots.Timestamp
import Lord.Lib.Precedence

/-! Bitcoin attestation verification of a timestamp: every path of the step tree is executed, and
the verdicts of the branches of a fork are joined by precedence. -/

namespace Lord.Commit

open Ots Precedence

/-- Lookup of merkle roots by block height in the best chain. -/
structure BlockHeaderSource where
  merkleRootAtHeight : UInt32 → Result (Option Bytes32)

inductive AttestationVerifyStatus where
  | none
  | pending
  | confirmed (height : UInt32)
  | failed (reason : String)
  | unavailable (reason : String)
  | unknown
  deriving Repr, DecidableEq

open AttestationVerifyStatus

/-- `u32::try_from`. -/
def tryU32 (height : UInt64) : Option UInt32 :=
  if height.toNat < 2 ^ 32 then some height.toUInt32 else .none

def verifyAttestation (digest : Bytes) (attestation : Attestation) (source : BlockHeaderSource) :
    Result AttestationVerifyStatus :=
  match attestation with
  | .bitcoin height =>
    match tryU32 height with
    | .none => .error "bitcoin attestation height overflow"
    | some height =>
      match source.merkleRootAtHeight height with
      | .ok (some merkle) =>
        if digest = merkle.val then
          .ok (confirmed height)
        else
          .error
            s!"bitcoin attestation digest does not match block merkle root at height {height}"
      | .ok .none => .ok (unavailable s!"block at height {height} is not in the best chain")
      | .error err =>
        .ok (unavailable s!"failed to fetch block header at height {height}: {err}")
  | .pending _ => .ok pending
  | .unknown _ _ => .ok unknown

def AttestationVerifyStatus.isConfirmed : AttestationVerifyStatus → Bool
  | confirmed _ => true
  | _ => false

def AttestationVerifyStatus.isFailed : AttestationVerifyStatus → Bool
  | failed _ => true
  | _ => false

def AttestationVerifyStatus.isUnavailable : AttestationVerifyStatus → Bool
  | unavailable _ => true
  | _ => false

def aggregateForkStatuses (statuses : List AttestationVerifyStatus) : AttestationVerifyStatus :=
  match statuses.find? isConfirmed with
  | some status => status
  | .none =>
    if unknown ∈ statuses then
      unknown
    else if pending ∈ statuses then
      pending
    else
      match statuses.find? isFailed with
      | some status => status
      | .none =>
        match statuses.find? isUnavailable with
        | some status => status
        | .none => .none

/-- The status of a branch: an error of the branch is its failure. -/
def branchStatus (result : Result AttestationVerifyStatus) : AttestationVerifyStatus :=
  match result with
  | .ok status => status
  | .error err => failed err.message

section

variable [Digests]

mutual

def verifyStep (source : BlockHeaderSource) : Step → Bytes → Result AttestationVerifyStatus
  | .mk (.attestation attestation) output _, digest =>
    if output ≠ digest then
      .error "attestation step output does not match expected digest"
    else
      verifyAttestation digest attestation source
  | .mk .fork output next, digest =>
    if output ≠ digest then
      .error "fork step output does not match expected digest"
    else if next.isEmpty then
      .ok .none
    else
      .ok (aggregateForkStatuses (branchStatuses source next digest))
  | .mk (.op op) output next, digest =>
    if output ≠ op.execute digest then
      .error "op step output does not match executed digest"
    else
      match next with
      | [] => .error "timestamp op step missing successor"
      | child :: _ => verifyStep source child output

/-- The statuses of the children of a fork, left to right. -/
def branchStatuses (source : BlockHeaderSource) : List Step → Bytes → List AttestationVerifyStatus
  | [], _ => []
  | child :: rest, digest =>
    branchStatus (verifyStep source child digest) :: branchStatuses source rest digest

end

/-- Verify all execution paths of a timestamp against `source`. -/
def verifyTimestampAttestations (timestamp : Timestamp) (source : BlockHeaderSource) :
    AttestationVerifyStatus :=
  branchStatus (verifyStep source timestamp.firstStep timestamp.startDigest)

theorem branchStatuses_eq_map (source : BlockHeaderSource) (next : List Step) (digest : Bytes) :
    branchStatuses source next digest =
      next.map fun child => branchStatus (verifyStep source child digest) := by
  induction next with
  | nil => rfl
  | cons child rest ih => simp [branchStatuses, ih]

end

end Lord.Commit
