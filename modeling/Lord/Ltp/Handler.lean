import Lord.Ltp.Staging
import Mathlib.Logic.Function.Basic

/-! The handler of inbound messages: the checks of a frame and of its payload, and the append of a record to
the staging file of its kind. -/

namespace Lord.Ltp

open Ots

/-- The kinds of messages that are staged. -/
inductive InboundKind where
  | tails
  | paymentProofs
  | baoChallenges
  deriving Repr, DecidableEq

abbrev InboundKind.Record : InboundKind → Type
  | tails => InboundTailRecord
  | paymentProofs => InboundPaymentProofRecord
  | baoChallenges => InboundBaoChallengeRecord

def InboundKind.staging : (kind : InboundKind) → Staging kind.Record
  | tails => inboundTails
  | paymentProofs => inboundPaymentProofs
  | baoChallenges => inboundBaoChallenges

/-- A record of one of the kinds. -/
structure InboundRecord where
  kind : InboundKind
  record : kind.Record

/-- The staging files of a chain's data directory. -/
abbrev InboundFiles := InboundKind → Option Bytes

def noInbound : InboundFiles := fun _ => none

/-- `append_inbound_tail`, `append_inbound_payment_proof` and `append_inbound_bao_challenge`. -/
def appendInbound (chainDataDir : String) (env : AppendEnv) (added : InboundRecord)
    (files : InboundFiles) : Result Unit × InboundFiles :=
  let appended := added.kind.staging.append chainDataDir env added.record (files added.kind)
  (appended.1, Function.update files added.kind appended.2)

def ensureStorageContractForRoot (storageContractExists : Bytes32 → Result Bool) (baoRoot : Bytes32) :
    Result Unit := do
  let found ← storageContractExists baoRoot
  if found then
    .ok ()
  else
    .error s!"no storage contract for bao root `{Hex.encode baoRoot.val}`"

/-- What an inbound message takes from outside: the clock, the market's storage contracts, and how
the append to the staging file goes. -/
structure InboundEnv where
  now : Result UInt64
  storageContractExists : Bytes32 → Result Bool
  append : AppendEnv

section

variable [Digests] [LtpJson]

/-- The checks of a payload in front of its append, and the record that is appended. -/
def checkInboundFrame (env : InboundEnv) (frame : LtpFrame) (receivedAt : UInt64) :
    Result InboundRecord := do
  match frame.messageType with
  | .brecciaTail =>
    let tail ← Result.context (LtpJson.decodeBrecciaTail frame.payload)
      "failed to decode BrecciaTail payload"
    validateBrecciaTailPayload tail
    .ok ⟨.tails, ⟨receivedAt, frame, tail⟩⟩
  | .paymentProof =>
    let proof ← Result.context (LtpJson.decodePaymentProof frame.payload)
      "failed to decode PaymentProof payload"
    validatePaymentProofPayload proof
    ensureStorageContractForRoot env.storageContractExists proof.baoRoot
    .ok ⟨.paymentProofs, ⟨receivedAt, frame, proof⟩⟩
  | .baoChallenge =>
    let challenge ← Result.context (LtpJson.decodeBaoChallenge frame.payload)
      "failed to decode BaoChallenge payload"
    validateBaoChallengePayload challenge
    ensureStorageContractForRoot env.storageContractExists challenge.baoRoot
    .ok ⟨.baoChallenges, ⟨receivedAt, frame, challenge⟩⟩
  | .otsUpgradeHint => .error "unsupported inbound LtpMessageType: OtsUpgradeHint"
  | .replicationOffer => .error "unsupported inbound LtpMessageType: ReplicationOffer"

/-- The checks of a message in front of its append. -/
def checkInboundMessage (chain : LtpChain) (env : InboundEnv) (content : Bytes) :
    Result InboundRecord := do
  let frame ← Result.context (LtpJson.decodeFrame content) "failed to decode inbound LtpFrame"
  validateLtpFrameVersion frame
  if frame.chainId ≠ chain.chainId then
    .error s!"LtpFrame chain_id {frame.chainId} does not match node chain {chain.chainId}"
  else
    let receivedAt ← env.now.context "system time before unix epoch"
    checkInboundFrame env frame receivedAt

/-- Validate and stage an inbound gossip payload. -/
def handleInboundMessage (chain : LtpChain) (chainDataDir : String) (env : InboundEnv)
    (content : Bytes) (files : InboundFiles) : Result Unit × InboundFiles :=
  match checkInboundMessage chain env content with
  | .error err => (.error err, files)
  | .ok added => appendInbound chainDataDir env.append added files

end

end Lord.Ltp
