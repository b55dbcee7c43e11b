import Lord.Lib.Runs
import Lord.Market.Settlement
import Lord.Payments.Invoices

/-! The calls of the market over what lasts between them: the market store, the ledger of the ecash
wallet and the payments of the Lightning node.  None of them takes back a credential. -/

namespace Lord.Market

open Storage Payments

/-! ### Contracts and prices -/

/-- Options for creating a storage contract request. -/
structure RequestContractOptions where
  targetReplication : UInt8
  visibility : ContractVisibility
  mutualAidOnly : Bool

def ContractVisibility.matchesFormat (visibility : ContractVisibility) (format : UInt8) : Bool :=
  match visibility with
  | .pub => format % 2 = 0
  | .odd => format % 2 ≠ 0

/-- The name of a visibility in a message. -/
def ContractVisibility.name : ContractVisibility → String
  | .pub => "Public"
  | .odd => "Odd"

def newPendingContract (baoRoot : Bytes32) (options : RequestContractOptions) (createdAt : UInt64) :
    StorageContract where
  baoRoot
  targetReplication := options.targetReplication
  visibility := options.visibility
  mutualAidOnly := options.mutualAidOnly
  createdAt
  status := .pending
  invoiceHash := none

/-- Request durable storage replication for a timestamped commitment. -/
def requestStorageContract (market : MarketStore) (dir : DataDir) (mutualAidEnabled : Bool)
    (baoRoot : Bytes32) (options : RequestContractOptions) (createdAt : UInt64) : Result MarketStore :=
  if options.targetReplication = 0 then
    .error "target replication must be at least 1"
  else if options.mutualAidOnly && !mutualAidEnabled then
    .error "mutual-aid-only requires `mutual_aid_enabled: true` in lord.yaml"
  else do
    let row ← okOr (dir.store.getCommitment baoRoot) s!"unknown bao root `{Hex.encode baoRoot.val}`"
    if !row.isTimestamped then
      .error (s!"commitment `{Hex.encode baoRoot.val}` is not timestamped; run " ++
        "`lord commit timestamp` first")
    else if !options.visibility.matchesFormat row.format then
      .error (s!"visibility {options.visibility.name} does not match commitment format " ++
        s!"c{row.format} (even=public, odd=private)")
    else if (market.getContract baoRoot).isSome then
      .error s!"storage contract already exists for bao root `{Hex.encode baoRoot.val}`"
    else
      .ok (market.putContract (newPendingContract baoRoot options createdAt))

def putContractPricing (market : MarketStore) (pricing : ContractPricingRecord) :
    Result MarketStore :=
  if pricing.amountSats = 0 then
    .error "contract pricing amount_sats must be greater than zero"
  else
    .ok { market with
      contractPricing := market.contractPricing.insert pricing.baoRoot.val pricing }

/-! ### Invoices -/

/-- The live providers of a call that creates an invoice. -/
structure InvoiceProviders extends Providers where
  invoices : Except PaymentError InvoiceNode

def ensureContractExists (market : MarketStore) (baoRoot : Bytes32) : Except PaymentError Unit :=
  match market.getContract baoRoot with
  | some _ => .ok ()
  | none => .error (noContract baoRoot)

def persistInvoiceHash (market : MarketStore) (baoRoot paymentHash : Bytes32) :
    Except PaymentError MarketStore := do
  let contract ← okOr (market.getContract baoRoot) (noContract baoRoot)
  match contract.invoiceHash with
  | some existing =>
    if existing = paymentHash then
      .ok market
    else
      .error (.provider (s!"invoice_hash already set for bao root `{Hex.encode baoRoot.val}` " ++
        "(refusing overwrite)"))
  | none => .ok (market.putContract { contract with invoiceHash := some paymentHash })

def persistEcashReceipt (market : MarketStore) (binding : PaymentBinding) (reference : String) :
    Except PaymentError MarketStore :=
  if reference ≠ ecashBindingReference binding then
    .error (.invalidBinding (s!"ecash receipt `{reference}` does not match binding for bao_root " ++
      binding.baoRootHex))
  else
    match market.getEcashReceipt binding.baoRoot with
    | some existing =>
      if existing.reference = reference then
        .ok market
      else
        .error (.provider (s!"ecash receipt already set for bao root `{binding.baoRootHex}` " ++
          "(refusing overwrite)"))
    | none => .ok (market.putEcashReceipt ⟨binding.baoRoot, reference⟩)

/-- The credential of an invoice, by its rail. -/
def persistCredential (market : MarketStore) (binding : PaymentBinding) (result : SettlementResult) :
    Except PaymentError MarketStore :=
  match result.rail, result.paymentHash with
  | .lightning, some paymentHash => persistInvoiceHash market binding.baoRoot paymentHash
  | .lightning, none => .ok market
  | .ecash, _ => persistEcashReceipt market binding result.reference

/-- What an invoice is created from. -/
structure InvoiceRequest where
  binding : PaymentBinding
  coordinator : SettlementCoordinator
  providers : InvoiceProviders

def prepareInvoice [MicroPaymentJson] (market : MarketStore) (settings : SettlementSettings)
    (providers : Except PaymentError InvoiceProviders) (baoRoot : Bytes32) :
    Except PaymentError InvoiceRequest := do
  ensureContractExists market baoRoot
  let binding ← contractBinding market baoRoot settings
  let providers ← providers
  let coordinator ← SettlementCoordinator.new (lightningPaymentProvider providers.node)
    ⟨providers.micro.verifyMicro⟩ settings.thresholdSats
  .ok { binding, coordinator, providers }

/-- Create a settlement invoice for a storage contract, in front of a ledger. -/
def createInvoiceForContract [MicroPaymentJson] (market : MarketStore) (ledger : MicroPaymentLedger)
    (ledgerEnv : LedgerEnv) (settings : SettlementSettings)
    (providers : Except PaymentError InvoiceProviders) (baoRoot : Bytes32) :
    Except PaymentError SettlementResult × MarketStore × MicroPaymentLedger :=
  match prepareInvoice market settings providers baoRoot with
  | .error err => (.error err, market, ledger)
  | .ok request =>
    match request.coordinator.createInvoice request.providers.invoices request.providers.micro
        ledgerEnv request.binding with
    | (.error err, rail) => (.error err, market, rail.ledgerOr ledger)
    | (.ok result, rail) =>
      match persistCredential market request.binding result with
      | .error err => (.error err, market, rail.ledgerOr ledger)
      | .ok market' => (.ok result, market', rail.ledgerOr ledger)

/-- Pay a provider challenge fee. -/
def payChallengeFee [MicroPaymentJson] (market : MarketStore) (ledger : MicroPaymentLedger)
    (ledgerEnv : LedgerEnv) (thresholdSats challengeFeeSats : UInt64)
    (providers : Except PaymentError Providers) (baoRoot : Bytes32) :
    Except PaymentError SettlementResult × MicroPaymentLedger :=
  let rail := do
    ensureContractExists market baoRoot
    let providers ← providers
    let _ ← SettlementCoordinator.new (lightningPaymentProvider providers.node)
      ⟨providers.micro.verifyMicro⟩ thresholdSats
    .ok providers.micro
  match rail with
  | .error err => (.error err, ledger)
  | .ok rail =>
    match SettlementCoordinator.payChallengeFee rail ledgerEnv ⟨baoRoot, .challengeFee, challengeFeeSats⟩ with
    | (result, rail') => (result, rail'.ledgerOr ledger)

/-! ### Calls -/

/-- What lasts between the calls of the market. -/
structure MarketState where
  market : MarketStore
  /-- The ledger of the ecash wallet. -/
  ledger : MicroPaymentLedger
  /-- The payments that the Lightning node lists. -/
  payments : List PaymentDetails

namespace MarketState

/-- The ecash rail of a configuration that asks for live ecash or not. -/
def microRail (s : MarketState) (live : Bool) : MicroRail :=
  if live then .live true (some s.ledger) else .stub

/-- The providers of a configuration, whose Lightning node may fail to start. -/
def providers (s : MarketState) (app : Except PaymentError Bool) (node : Except PaymentError Unit) :
    Except PaymentError Providers := do
  let live ← app
  .ok ⟨node.map fun _ => s.payments, s.microRail live⟩

def invoiceProviders (s : MarketState) (app : Except PaymentError Bool)
    (node : Except PaymentError InvoiceNode) : Except PaymentError InvoiceProviders := do
  let live ← app
  .ok ⟨⟨node.map fun _ => s.payments, s.microRail live⟩, node⟩

end MarketState

/-- A call of the market, under its own settings and configuration, or news of the Lightning node. -/
inductive Call where
  | request (dir : DataDir) (mutualAidEnabled : Bool) (baoRoot : Bytes32)
      (options : RequestContractOptions) (createdAt : UInt64)
  | price (pricing : ContractPricingRecord)
  | challenge (env : ChallengeEnv) (baoRootHex : String) (sampleRate : UInt32)
  | invoice (settings : SettlementSettings) (app : Except PaymentError Bool)
      (node : Except PaymentError InvoiceNode) (ledgerEnv : LedgerEnv) (baoRoot : Bytes32)
  | settle (env : ChallengeEnv) (settings : SettlementSettings) (app : Except PaymentError Bool)
      (node : Except PaymentError Unit) (options : SettleContractOptions) (baoRoot : Bytes32)
  | challengeFee (thresholdSats challengeFeeSats : UInt64) (app : Except PaymentError Bool)
      (node : Except PaymentError Unit) (ledgerEnv : LedgerEnv) (baoRoot : Bytes32)
  /-- The node lists other payments beside those that succeeded. -/
  | listed (payments : List PaymentDetails)

namespace MarketState

variable [Carbonado] [MicroPaymentJson]

def invoice (s : MarketState) (settings : SettlementSettings) (app : Except PaymentError Bool)
    (node : Except PaymentError InvoiceNode) (ledgerEnv : LedgerEnv) (baoRoot : Bytes32) :
    Except PaymentError SettlementResult × MarketState :=
  match createInvoiceForContract s.market s.ledger ledgerEnv settings (s.invoiceProviders app node)
      baoRoot with
  | (result, market, ledger) => (result, { s with market, ledger })

def settle (s : MarketState) (env : ChallengeEnv) (settings : SettlementSettings)
    (app : Except PaymentError Bool) (node : Except PaymentError Unit)
    (options : SettleContractOptions) (baoRoot : Bytes32) : Except PaymentError Unit × MarketState :=
  match settleStorageContract s.market env settings (s.providers app node) options baoRoot with
  | (result, market) => (result, { s with market })

/-- The state behind a call. -/
def exec (s : MarketState) (call : Call) : MarketState :=
  match call with
  | .request dir mutualAidEnabled baoRoot options createdAt =>
    match requestStorageContract s.market dir mutualAidEnabled baoRoot options createdAt with
    | .ok market => { s with market }
    | .error _ => s
  | .price pricing =>
    match putContractPricing s.market pricing with
    | .ok market => { s with market }
    | .error _ => s
  | .challenge env baoRootHex sampleRate =>
    { s with market := (challengeReplication s.market env baoRootHex sampleRate).2.2 }
  | .invoice settings app node ledgerEnv baoRoot => (s.invoice settings app node ledgerEnv baoRoot).2
  | .settle env settings app node options baoRoot =>
    (s.settle env settings app node options baoRoot).2
  | .challengeFee thresholdSats challengeFeeSats app node ledgerEnv baoRoot =>
    { s with ledger := (payChallengeFee s.market s.ledger ledgerEnv thresholdSats challengeFeeSats
        (s.providers app node) baoRoot).2 }
  | .listed payments =>
    { s with payments := s.payments.filter (fun payment => payment.status = .succeeded) ++ payments }

end MarketState

end Lord.Market
