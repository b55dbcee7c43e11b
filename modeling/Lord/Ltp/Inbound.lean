import Lord.Ots.Timestamp

/-! Inbound messages of the gossip network: frames, the validation of their payloads, and the records
that these are staged as. -/

namespace Lord.Ltp

open Ots

def ltpFrameVersion : UInt8 := 1

inductive LtpMessageType where
  | brecciaTail
  | otsUpgradeHint
  | replicationOffer
  | baoChallenge
  | paymentProof
  deriving Repr, DecidableEq

structure LtpFrame where
  version : UInt8
  chainId : UInt32
  messageType : LtpMessageType
  payload : Bytes
  deriving Repr, DecidableEq

structure TreeRoot where
  merkleRoot : Bytes32
  anchorTxid : String
  deriving Repr, DecidableEq

structure BrecciaTailPayload where
  baoRoot : Bytes32
  startDigest : Bytes32
  otsOrderKey : Bytes
  attestationHeight : Option UInt32
  attestationTxid : Option String
  treeRoot : Option TreeRoot
  deriving Repr, DecidableEq

/-- Bao possession challenge. -/
structure BaoChallengePayload where
  baoRoot : Bytes32
  sampleOffset : UInt64
  sampleRate : UInt32
  deriving Repr, DecidableEq

/-- Ecash payment proof that binds a root and a purpose. -/
structure PaymentProofPayload where
  baoRoot : Bytes32
  purpose : String
  ecashReference : String
  amountSats : UInt64
  deriving Repr, DecidableEq

inductive LtpChain where
  | mainnet
  | regtest
  | signet
  | testnet
  | testnet4
  deriving Repr, DecidableEq

/-- `chain_profile(chain).chain_id`. -/
def LtpChain.chainId : LtpChain → UInt32
  | mainnet => 0
  | signet => 1
  | testnet | testnet4 => 2
  | regtest => 3

/-! ### Validation -/

section

variable [Digests]

/-- SHA-256 digest of the raw bao root bytes (OTS commitment binding). -/
def commitmentDigest (baoRoot : Bytes32) : Bytes32 :=
  ⟨Op.sha256.execute baoRoot.val, Digests.length_sha256 baoRoot.val⟩

/-- Reject inbound breccia tails whose start digest does not bind to the root. -/
def validateBrecciaTailPayload (tail : BrecciaTailPayload) : Result Unit :=
  if tail.startDigest ≠ commitmentDigest tail.baoRoot then
    .error "start_digest does not match SHA256(bao_root)"
  else
    .ok ()

end

/-- Reject inbound LTP frames with unsupported versions. -/
def validateLtpFrameVersion (frame : LtpFrame) : Result Unit :=
  if frame.version ≠ ltpFrameVersion then
    .error s!"unsupported LtpFrame version {frame.version} (expected {ltpFrameVersion})"
  else
    .ok ()

def paymentPurposeLabels : List String := ["storage_contract", "challenge_fee", "ltp_micro_payment"]

/-- Expected ecash binding receipt for a payment proof payload. -/
def expectedEcashReference (baoRoot : Bytes32) (purpose : String) : String :=
  s!"ecash:binding:{Hex.encode baoRoot.val}:{purpose}"

/-- Reject payment proofs whose ecash reference does not bind to root and purpose. -/
def validatePaymentProofPayload (payload : PaymentProofPayload) : Result Unit :=
  if payload.amountSats = 0 then
    .error "amount_sats must be greater than zero"
  else if payload.purpose ∉ paymentPurposeLabels then
    .error (s!"unsupported payment proof purpose `{payload.purpose}` (expected one of: " ++
      "storage_contract, challenge_fee, ltp_micro_payment)")
  else if payload.ecashReference ≠ expectedEcashReference payload.baoRoot payload.purpose then
    .error "ecash_reference does not bind to bao_root and purpose"
  else
    .ok ()

/-- Reject Bao challenge frames with invalid sampling parameters. -/
def validateBaoChallengePayload (payload : BaoChallengePayload) : Result Unit :=
  if payload.sampleRate = 0 then
    .error "sample_rate must be greater than zero"
  else
    .ok ()

/-! ### Records -/

structure InboundTailRecord where
  receivedAt : UInt64
  frame : LtpFrame
  tail : BrecciaTailPayload
  deriving Repr, DecidableEq

structure InboundPaymentProofRecord where
  receivedAt : UInt64
  frame : LtpFrame
  proof : PaymentProofPayload
  deriving Repr, DecidableEq

structure InboundBaoChallengeRecord where
  receivedAt : UInt64
  frame : LtpFrame
  challenge : BaoChallengePayload
  deriving Repr, DecidableEq

/-- The JSON of frames and payloads. -/
class LtpJson where
  decodeFrame : Bytes → Result LtpFrame
  decodeBrecciaTail : Bytes → Result BrecciaTailPayload
  decodePaymentProof : Bytes → Result PaymentProofPayload
  decodeBaoChallenge : Bytes → Result BaoChallengePayload

end Lord.Ltp
