import Lord.Commit.TableWrites
import Lord.Market.PaidContracts

/-! A node of the market: its data directory, the market store and what the market keeps beside them,
and every call that writes one of them. -/

namespace Lord.Market

open Storage Payments Ots Commit

/-! ### Replication -/

/-- Observed replication for a contract (local stub counts only). -/
structure ReplicationState where
  baoRoot : Bytes32
  observedReplication : UInt8
  providerPeers : List String
  deriving Repr, DecidableEq

def initializeReplicationState (replication : Table ReplicationState) (baoRoot : Bytes32) :
    Table ReplicationState :=
  if replication[baoRoot.val]?.isSome then replication
  else replication.insert baoRoot.val ⟨baoRoot, 0, []⟩

/-! ### Offers -/

/-- Market namespace separating public (even c-format) and odd (private) offers. -/
inductive MarketNamespace where
  | pub
  | odd
  deriving Repr, DecidableEq

def MarketNamespace.prefixByte : MarketNamespace → UInt8
  | pub => 0
  | odd => 1

abbrev OfferId : Type := { id : Bytes // id.length = 16 }

/-- Local provider capacity offer in a market namespace. -/
structure ProviderOffer where
  offerId : OfferId
  marketNamespace : MarketNamespace
  capacityGib : UInt64
  encryptedOnly : Bool
  openToUnencrypted : Bool
  createdAt : UInt64
  deriving Repr, DecidableEq

def encodeOfferKey (marketNamespace : MarketNamespace) (offerId : OfferId) : Bytes :=
  marketNamespace.prefixByte :: offerId.val

/-- Market-related settings mirrored from `lord.yaml`. -/
structure MarketSettings where
  mutualAidEnabled : Bool
  encryptedOnlyPreference : Bool
  openToUnencrypted : Bool

/-- Options for publishing a provider offer. -/
structure PublishOfferOptions where
  capacityGib : UInt64
  encryptedOnly : Option Bool
  openToUnencrypted : Option Bool
  marketNamespace : Option MarketNamespace

/-- Publish a local provider offer, under an id that is drawn at random. -/
def publishProviderOffer (offers : Table ProviderOffer) (settings : MarketSettings)
    (options : PublishOfferOptions) (newOfferId : Result OfferId) (createdAt : UInt64) :
    Result (ProviderOffer × Table ProviderOffer) :=
  if options.capacityGib = 0 then
    .error "capacity-gib must be at least 1"
  else
    let encryptedOnly := options.encryptedOnly.getD settings.encryptedOnlyPreference
    let openToUnencrypted := options.openToUnencrypted.getD settings.openToUnencrypted
    if encryptedOnly && openToUnencrypted then
      .error "encrypted-only and open-to-unencrypted are mutually exclusive"
    else do
      let marketNamespace := options.marketNamespace.getD (if encryptedOnly then .odd else .pub)
      let offerId ← newOfferId.context "failed to generate offer id"
      let offer : ProviderOffer :=
        { offerId, marketNamespace, capacityGib := options.capacityGib, encryptedOnly,
          openToUnencrypted, createdAt }
      .ok (offer, offers.insert (encodeOfferKey marketNamespace offerId) offer)

theorem publishProviderOffer_ok {offers offers' : Table ProviderOffer} {settings : MarketSettings}
    {options : PublishOfferOptions} {newOfferId : Result OfferId} {createdAt : UInt64}
    {offer : ProviderOffer}
    (h : publishProviderOffer offers settings options newOfferId createdAt = .ok (offer, offers')) :
    offer.capacityGib ≠ 0 ∧ ¬(offer.encryptedOnly = true ∧ offer.openToUnencrypted = true) ∧
      offers' = offers.insert (encodeOfferKey offer.marketNamespace offer.offerId) offer := by
  unfold publishProviderOffer at h
  split at h
  · cases h
  rename_i hcapacity
  dsimp only at h
  split at h
  · cases h
  rename_i hflags
  obtain ⟨offerId, -, hoffer⟩ := bind_eq_ok.mp h
  cases hoffer
  exact ⟨hcapacity, fun hboth => hflags (Bool.and_eq_true_iff.mpr hboth), rfl⟩

def listOffersInNamespace (offers : Table ProviderOffer) (marketNamespace : MarketNamespace) :
    List ProviderOffer :=
  (offers.toList.filter fun entry => [marketNamespace.prefixByte].isPrefixOf entry.1).map Prod.snd

/-! ### The node -/

structure Node where
  dir : DataDir
  state : MarketState
  replication : Table ReplicationState
  offers : Table ProviderOffer

/-- Result of a request for a storage contract. -/
structure RequestContractResult where
  contract : StorageContract
  replication : ReplicationState
  deriving Repr, DecidableEq

/-- Market status of a root, without the factor that is the quotient of its counts. -/
structure MarketStatus where
  contract : StorageContract
  replication : ReplicationState
  deriving Repr, DecidableEq

namespace Node

/-- A node without commitments and contracts. -/
def fresh (dir : DataDir) (ledger : MicroPaymentLedger) (payments : List PaymentDetails) : Node where
  dir := { dir with store := .empty }
  state := ⟨.empty, ledger, payments⟩
  replication := ∅
  offers := ∅

def getContract (n : Node) (baoRoot : Bytes32) : Option StorageContract :=
  n.state.market.getContract baoRoot

def getReplicationState (n : Node) (baoRoot : Bytes32) : Option ReplicationState :=
  n.replication[baoRoot.val]?

/-- The contract and its replication state are written in one transaction. -/
def requestStorageContract (n : Node) (settings : MarketSettings) (baoRoot : Bytes32)
    (options : RequestContractOptions) (createdAt : UInt64) : Result RequestContractResult × Node :=
  match Market.requestStorageContract n.state.market n.dir settings.mutualAidEnabled baoRoot options
      createdAt with
  | .error err => (.error err, n)
  | .ok market =>
    let written := { n with
      state := { n.state with market }
      replication := initializeReplicationState n.replication baoRoot }
    match written.getReplicationState baoRoot with
    | none => (.error "replication state missing after contract creation", written)
    | some replication =>
      (.ok ⟨newPendingContract baoRoot options createdAt, replication⟩, written)

/-- Load contract and replication state. -/
def marketStatus (n : Node) (baoRoot : Bytes32) : Result MarketStatus := do
  let contract ← okOr (n.getContract baoRoot)
    s!"no storage contract for bao root `{Hex.encode baoRoot.val}`"
  let replication ← okOr (n.getReplicationState baoRoot)
    s!"replication state missing for bao root `{Hex.encode baoRoot.val}`"
  .ok ⟨contract, replication⟩

end Node

/-- A call on a node: a call on its data directory, or one of the market, which reads that directory. -/
inductive NodeCall where
  | store (call : StoreCall)
  | request (settings : MarketSettings) (baoRoot : Bytes32) (options : RequestContractOptions)
      (createdAt : UInt64)
  | publishOffer (settings : MarketSettings) (options : PublishOfferOptions)
      (newOfferId : Result OfferId) (createdAt : UInt64)
  | price (pricing : ContractPricingRecord)
  | challenge (rng : Shuffle) (now : Result UInt64) (baoRootHex : String) (sampleRate : UInt32)
  | invoice (settings : SettlementSettings) (app : Except PaymentError Bool)
      (node : Except PaymentError InvoiceNode) (ledgerEnv : LedgerEnv) (baoRoot : Bytes32)
  | settle (rng : Shuffle) (now : Result UInt64) (settings : SettlementSettings)
      (app : Except PaymentError Bool) (node : Except PaymentError Unit)
      (options : SettleContractOptions) (baoRoot : Bytes32)
  | challengeFee (thresholdSats challengeFeeSats : UInt64) (app : Except PaymentError Bool)
      (node : Except PaymentError Unit) (ledgerEnv : LedgerEnv) (baoRoot : Bytes32)
  | listed (payments : List PaymentDetails)

namespace Node

variable [Carbonado] [Digests] [OtsCodec] [MicroPaymentJson]

def settle (n : Node) (rng : Shuffle) (now : Result UInt64) (settings : SettlementSettings)
    (app : Except PaymentError Bool) (node : Except PaymentError Unit)
    (options : SettleContractOptions) (baoRoot : Bytes32) : Except PaymentError Unit :=
  (n.state.settle ⟨n.dir, rng, now⟩ settings app node options baoRoot).1

/-- The node behind a call. -/
def exec (n : Node) (call : NodeCall) : Node :=
  match call with
  | .store call => { n with dir := call.exec n.dir }
  | .request settings baoRoot options createdAt =>
    (n.requestStorageContract settings baoRoot options createdAt).2
  | .publishOffer settings options newOfferId createdAt =>
    match publishProviderOffer n.offers settings options newOfferId createdAt with
    | .error _ => n
    | .ok (_, offers) => { n with offers }
  | .price pricing => { n with state := n.state.exec (.price pricing) }
  | .challenge rng now baoRootHex sampleRate =>
    { n with state := n.state.exec (.challenge ⟨n.dir, rng, now⟩ baoRootHex sampleRate) }
  | .invoice settings app node ledgerEnv baoRoot =>
    { n with state := n.state.exec (.invoice settings app node ledgerEnv baoRoot) }
  | .settle rng now settings app node options baoRoot =>
    { n with state := n.state.exec (.settle ⟨n.dir, rng, now⟩ settings app node options baoRoot) }
  | .challengeFee thresholdSats challengeFeeSats app node ledgerEnv baoRoot =>
    { n with
      state := n.state.exec (.challengeFee thresholdSats challengeFeeSats app node ledgerEnv baoRoot) }
  | .listed payments => { n with state := n.state.exec (.listed payments) }

end Node

end Lord.Market
