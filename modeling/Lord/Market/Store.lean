import Lord.Storage.Verify

/-! The market store: storage contracts with their credentials, and the possession challenge that
gates their settlement. -/

namespace Lord.Market

open Storage

inductive ContractVisibility where
  | pub
  | odd
  deriving Repr, DecidableEq

inductive ContractStatus where
  | pending
  | active
  | fulfilled
  | cancelled
  deriving Repr, DecidableEq

/-- Storage replication contract keyed by bao root. -/
structure StorageContract where
  baoRoot : Bytes32
  targetReplication : UInt8
  visibility : ContractVisibility
  mutualAidOnly : Bool
  createdAt : UInt64
  status : ContractStatus
  /-- BOLT11 payment hash, set when an invoice is created. -/
  invoiceHash : Option Bytes32
  deriving Repr, DecidableEq

/-- Persisted ecash binding receipt for a storage contract. -/
structure EcashReceiptRecord where
  baoRoot : Bytes32
  reference : String
  deriving Repr, DecidableEq

/-- Per-contract settlement amount override. -/
structure ContractPricingRecord where
  baoRoot : Bytes32
  amountSats : UInt64
  deriving Repr, DecidableEq

/-- Record of a successful local Bao challenge. -/
structure ChallengeProof where
  baoRoot : Bytes32
  verifiedAt : UInt64
  slicesVerified : UInt32
  sampleRate : UInt32
  deriving Repr, DecidableEq

/-- The tables of the market store that settlement reads and writes, by bao root. -/
structure MarketStore where
  contracts : Table StorageContract
  challengeProofs : Table ChallengeProof
  ecashReceipts : Table EcashReceiptRecord
  contractPricing : Table ContractPricingRecord

namespace MarketStore

def empty : MarketStore := ⟨∅, ∅, ∅, ∅⟩

def getContract (market : MarketStore) (baoRoot : Bytes32) : Option StorageContract :=
  market.contracts[baoRoot.val]?

def getChallengeProof (market : MarketStore) (baoRoot : Bytes32) : Option ChallengeProof :=
  market.challengeProofs[baoRoot.val]?

def getEcashReceipt (market : MarketStore) (baoRoot : Bytes32) : Option EcashReceiptRecord :=
  market.ecashReceipts[baoRoot.val]?

def getContractPricing (market : MarketStore) (baoRoot : Bytes32) :
    Option ContractPricingRecord :=
  market.contractPricing[baoRoot.val]?

def putContract (market : MarketStore) (contract : StorageContract) : MarketStore :=
  { market with contracts := market.contracts.insert contract.baoRoot.val contract }

def putChallengeProof (market : MarketStore) (proof : ChallengeProof) : MarketStore :=
  { market with challengeProofs := market.challengeProofs.insert proof.baoRoot.val proof }

def putEcashReceipt (market : MarketStore) (receipt : EcashReceiptRecord) : MarketStore :=
  { market with ecashReceipts := market.ecashReceipts.insert receipt.baoRoot.val receipt }

end MarketStore

/-! ### The possession challenge -/

/-- What a challenge takes from outside the market store: the data directory, the randomness of the
sample and the clock. -/
structure ChallengeEnv where
  dir : DataDir
  rng : Shuffle
  now : Result UInt64

/-- Run a local Bao sample challenge and persist its proof.  The calls of the codec are recorded
beside the result. -/
def challengeReplication [Carbonado] (market : MarketStore) (env : ChallengeEnv)
    (baoRootHex : String) (sampleRate : UInt32) :
    List CodecCall × Result VerifyResult × MarketStore :=
  if sampleRate = 0 then
    ([], .error "sample-rate must be greater than zero", market)
  else
    match parseBaoRoot baoRootHex with
    | .error err => ([], .error err, market)
    | .ok baoRoot =>
      match market.getContract baoRoot with
      | none => ([], .error s!"no storage contract for bao root `{baoRootHex}`", market)
      | some _ =>
        match verifyCommitment env.rng env.dir baoRootHex ⟨sampleRate, none⟩ with
        | (calls, .error err) => (calls, .error err, market)
        | (calls, .ok localVerify) =>
          match env.now with
          | .error err => (calls, (Result.context (.error err) "system time before unix epoch"),
              market)
          | .ok verifiedAt =>
            (calls, .ok localVerify, market.putChallengeProof
              { baoRoot, verifiedAt, slicesVerified := localVerify.slicesVerified, sampleRate })

/-- A challenge changes nothing but the challenge proofs, and only when the verification of the
blob succeeded. -/
theorem challengeReplication_market [Carbonado] (market : MarketStore) (env : ChallengeEnv)
    (baoRootHex : String) (sampleRate : UInt32) :
    (challengeReplication market env baoRootHex sampleRate).2.2 = market ∨
      ∃ calls result proof,
        verifyCommitment env.rng env.dir baoRootHex ⟨sampleRate, none⟩ = (calls, .ok result) ∧
        proof.slicesVerified = result.slicesVerified ∧
        (challengeReplication market env baoRootHex sampleRate).2.2 =
          market.putChallengeProof proof := by
  unfold challengeReplication
  split
  · exact .inl rfl
  split
  · exact .inl rfl
  split
  · exact .inl rfl
  split
  · exact .inl rfl
  rename_i calls localVerify hverify
  split
  · exact .inl rfl
  · exact .inr ⟨calls, localVerify, _, hverify, rfl, rfl⟩

end Lord.Market
