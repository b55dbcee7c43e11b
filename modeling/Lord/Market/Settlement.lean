import Lord.Market.Store
import Lord.Payments.MicroRail

/-! Settlement of storage contracts: the challenge gate, the persisted credentials and the routing
through the coordinator.  A contract without an invoice hash is settled by any inbound payment of
its amount; every other settlement is backed by a credential persisted for the contract. -/

namespace Lord.Market

open Storage Payments

/-- Settlement-related settings. -/
structure SettlementSettings where
  thresholdSats : UInt64
  contractAmountSats : UInt64

/-- Options of a settlement: the sample rate of an inline challenge. -/
structure SettleContractOptions where
  inlineSampleRate : Option UInt32

/-- The live providers: the Lightning node with its payments, and the micro-payment rail. -/
structure Providers where
  node : Except PaymentError (List PaymentDetails)
  micro : MicroRail

def SettleContractOptions.validate (options : SettleContractOptions) : Except PaymentError Unit :=
  if options.inlineSampleRate = some 0 then
    .error (.invalidBinding "inline_sample_rate must be greater than zero")
  else
    .ok ()

/-- The price of a contract: its own record, or the default.  The store is one that opens; where it does
not, the source falls back to the default. -/
def contractAmountSats (market : MarketStore) (baoRoot : Bytes32) (settings : SettlementSettings) :
    Except PaymentError UInt64 :=
  match market.getContractPricing baoRoot with
  | some pricing =>
    if pricing.amountSats = 0 then
      .error (.provider "contract pricing amount_sats must be greater than zero")
    else
      .ok pricing.amountSats
  | none => .ok settings.contractAmountSats

def contractBinding (market : MarketStore) (baoRoot : Bytes32) (settings : SettlementSettings) :
    Except PaymentError PaymentBinding := do
  let amountSats ← contractAmountSats market baoRoot settings
  .ok { baoRoot, purpose := .storageContract, amountSats }

/-- The error for a root without a contract. -/
def noContract (baoRoot : Bytes32) : PaymentError :=
  .provider s!"no storage contract for bao root `{Hex.encode baoRoot.val}`"

def contractInvoiceHash (market : MarketStore) (baoRoot : Bytes32) :
    Except PaymentError (Option Bytes32) := do
  let contract ← okOr (market.getContract baoRoot) (noContract baoRoot)
  .ok contract.invoiceHash

def contractEcashReceipt (market : MarketStore) (baoRoot : Bytes32) : Option String :=
  (market.getEcashReceipt baoRoot).map EcashReceiptRecord.reference

section

variable [Carbonado] [MicroPaymentJson]

/-- The Bao challenge gate: an inline challenge, or a persisted proof. -/
def ensureBaoChallengeGate (market : MarketStore) (env : ChallengeEnv) (baoRoot : Bytes32)
    (options : SettleContractOptions) : Except PaymentError Unit × MarketStore :=
  match options.validate with
  | .error err => (.error err, market)
  | .ok () =>
    match options.inlineSampleRate with
    | some sampleRate =>
      let baoRootHex := Hex.encode baoRoot.val
      match challengeReplication market env baoRootHex sampleRate with
      | (_, .error err, market') =>
        (.error (.provider
          s!"inline bao challenge failed for bao root `{baoRootHex}`: {err.alternate}"), market')
      | (_, .ok _, market') => (.ok (), market')
    | none =>
      if (market.getChallengeProof baoRoot).isSome then
        (.ok (), market)
      else
        (.error (.provider (s!"bao challenge gate not satisfied for bao root " ++
          s!"`{Hex.encode baoRoot.val}`; run `lord market challenge` first or pass " ++
          "inline_sample_rate")), market)

/-- What a settlement hands to the rails. -/
structure Settlement where
  binding : PaymentBinding
  credentials : SettlementCredentials
  coordinator : SettlementCoordinator

/-- The binding, the credentials and the coordinator of a contract that passed the gate. -/
def loadSettlement (market : MarketStore) (settings : SettlementSettings)
    (providers : Except PaymentError Providers) (baoRoot : Bytes32) :
    Except PaymentError Settlement := do
  let binding ← contractBinding market baoRoot settings
  let invoiceHash ← contractInvoiceHash market baoRoot
  let credentials : SettlementCredentials :=
    { invoiceHash, ecashReceipt := contractEcashReceipt market baoRoot, baoGateSatisfied := true }
  let providers ← providers
  let coordinator ← SettlementCoordinator.new (lightningPaymentProvider providers.node)
    ⟨providers.micro.verifyMicro⟩ settings.thresholdSats
  .ok { binding, credentials, coordinator }

/-- Everything in front of the rails. -/
def prepareSettlement (market : MarketStore) (env : ChallengeEnv) (settings : SettlementSettings)
    (providers : Except PaymentError Providers) (options : SettleContractOptions)
    (baoRoot : Bytes32) : Except PaymentError Settlement × MarketStore :=
  match market.getContract baoRoot with
  | none => (.error (noContract baoRoot), market)
  | some _ =>
    match options.validate with
    | .error err => (.error err, market)
    | .ok () =>
      match ensureBaoChallengeGate market env baoRoot options with
      | (.error err, market') => (.error err, market')
      | (.ok (), market') => (loadSettlement market' settings providers baoRoot, market')

/-- Settle a storage contract payment (routes via the coordinator). -/
def settleStorageContract (market : MarketStore) (env : ChallengeEnv)
    (settings : SettlementSettings) (providers : Except PaymentError Providers)
    (options : SettleContractOptions) (baoRoot : Bytes32) :
    Except PaymentError Unit × MarketStore :=
  match prepareSettlement market env settings providers options baoRoot with
  | (.error err, market') => (.error err, market')
  | (.ok settlement, market') =>
    (settlement.coordinator.settleContract settlement.binding settlement.credentials, market')

end

/-! ### What backs a settlement -/

/-- The payment is an inbound succeeded BOLT11 payment with that hash and exactly the amount of the
binding in millisatoshi. -/
def PaysInvoice (payment : PaymentDetails) (binding : PaymentBinding) (hash : Bytes32) : Prop :=
  payment.direction = .inbound ∧ payment.status = .succeeded ∧ payment.kind = .bolt11 hash ∧
    ∃ msat : UInt64, payment.amountMsat = some msat ∧
      msat.toNat = binding.amountSats.toNat * 1000

/-- The payments that the node lists. -/
def knownPayments (providers : Except PaymentError Providers) : List PaymentDetails :=
  match providers with
  | .error _ => []
  | .ok live =>
    match live.node with
    | .ok payments => payments
    | .error _ => []

/-- An invoice hash is persisted for the root. -/
def InvoicePersisted (market : MarketStore) (baoRoot hash : Bytes32) : Prop :=
  ∃ contract, market.getContract baoRoot = some contract ∧ contract.invoiceHash = some hash

/-- The payment pays the invoice persisted for the root. -/
def PaidBy (market : MarketStore) (settings : SettlementSettings) (baoRoot : Bytes32)
    (payment : PaymentDetails) : Prop :=
  ∃ binding hash, contractBinding market baoRoot settings = .ok binding ∧
    InvoicePersisted market baoRoot hash ∧ PaysInvoice payment binding hash

/-- The amount of the contract routes it to the Lightning rail. -/
def OnLightning (market : MarketStore) (settings : SettlementSettings) (baoRoot : Bytes32) : Prop :=
  ∃ binding, contractBinding market baoRoot settings = .ok binding ∧
    settings.thresholdSats ≤ binding.amountSats

/-- The settlement of a root is backed: on the Lightning rail by a payment of the invoice persisted
for the root, and on the ecash rail by the receipt persisted for it. -/
def Backed (market : MarketStore) (settings : SettlementSettings)
    (providers : Except PaymentError Providers) (baoRoot : Bytes32) : Prop :=
  (OnLightning market settings baoRoot ∧
    ∃ payment ∈ knownPayments providers, PaidBy market settings baoRoot payment) ∨
  (¬OnLightning market settings baoRoot ∧
    ∃ binding receipt, contractBinding market baoRoot settings = .ok binding ∧
      market.getEcashReceipt baoRoot = some receipt ∧
      receipt.reference = ecashBindingReference binding)

section

variable [Carbonado] [MicroPaymentJson]

/-- A contract without an invoice hash passes the challenge gate and is priced for the Lightning
rail while the node knows some inbound payment of exactly its amount. -/
def Uninvoiced (market : MarketStore) (env : ChallengeEnv) (settings : SettlementSettings)
    (providers : Except PaymentError Providers) (options : SettleContractOptions)
    (baoRoot : Bytes32) : Prop :=
  ∃ contract binding, market.getContract baoRoot = some contract ∧ contract.invoiceHash = none ∧
    (ensureBaoChallengeGate market env baoRoot options).1 = .ok () ∧
    contractBinding market baoRoot settings = .ok binding ∧
    settings.thresholdSats ≠ 0 ∧ settings.thresholdSats ≤ binding.amountSats ∧
    ∃ payment ∈ knownPayments providers, ∃ hash, PaysInvoice payment binding hash

omit [MicroPaymentJson] in
theorem ensureBaoChallengeGate_market (market : MarketStore) (env : ChallengeEnv)
    (baoRoot : Bytes32) (options : SettleContractOptions) :
    (ensureBaoChallengeGate market env baoRoot options).2 = market ∨
      ∃ proof, (ensureBaoChallengeGate market env baoRoot options).2 =
        market.putChallengeProof proof := by
  unfold ensureBaoChallengeGate
  split
  · exact .inl rfl
  split
  · rename_i sampleRate _
    have hmarket := challengeReplication_market market env (Hex.encode baoRoot.val) sampleRate
    rcases hrun : challengeReplication market env (Hex.encode baoRoot.val) sampleRate with
      ⟨calls, result, market'⟩
    rw [hrun] at hmarket
    have hsame : market' = market ∨ ∃ proof, market' = market.putChallengeProof proof := by
      rcases hmarket with h | ⟨-, -, proof, -, -, h⟩
      · exact .inl h
      · exact .inr ⟨proof, h⟩
    cases result <;> simpa only [hrun] using hsame
  · split <;> exact .inl rfl

/-- What a settlement was loaded from: the contract, the credentials and the providers. -/
structure Loaded (market : MarketStore) (settings : SettlementSettings)
    (providers : Except PaymentError Providers) (baoRoot : Bytes32) (settlement : Settlement)
    (contract : StorageContract) (live : Providers) : Prop where
  contract_eq : market.getContract baoRoot = some contract
  binding_eq : contractBinding market baoRoot settings = .ok settlement.binding
  purpose_eq : settlement.binding.purpose = .storageContract
  credentials_eq : settlement.credentials =
    ⟨contract.invoiceHash, contractEcashReceipt market baoRoot, true⟩
  providers_eq : providers = .ok live
  lightning_eq : settlement.coordinator.lightning = lightningPaymentProvider live.node
  micro_eq : settlement.coordinator.micro = ⟨live.micro.verifyMicro⟩
  threshold_eq : settlement.coordinator.thresholdSats = settings.thresholdSats

/-- What the preparation of a settlement loads is what the market store holds for the root. -/
theorem prepareSettlement_loaded {market : MarketStore} {env : ChallengeEnv}
    {settings : SettlementSettings} {providers : Except PaymentError Providers}
    {options : SettleContractOptions} {baoRoot : Bytes32} {settlement : Settlement}
    (h : (prepareSettlement market env settings providers options baoRoot).1 = .ok settlement) :
    ∃ contract live, Loaded market settings providers baoRoot settlement contract live := by
  have hload : loadSettlement market settings providers baoRoot = .ok settlement := by
    unfold prepareSettlement at h
    split at h
    · cases h
    split at h
    · cases h
    split at h
    · cases h
    · rename_i market' hgate
      have hmarket := ensureBaoChallengeGate_market market env baoRoot options
      rw [hgate] at hmarket
      rcases hmarket with rfl | ⟨proof, rfl⟩
      · exact h
      · exact h
  unfold loadSettlement at hload
  obtain ⟨binding, hbinding, hload⟩ := bind_eq_ok.mp hload
  obtain ⟨invoiceHash, hinvoice, hload⟩ := bind_eq_ok.mp hload
  obtain ⟨live, hlive, hload⟩ := bind_eq_ok.mp hload
  obtain ⟨coordinator, hnew, hload⟩ := bind_eq_ok.mp hload
  cases hload
  obtain ⟨contract, hcontract, hhash⟩ := bind_eq_ok.mp hinvoice
  cases hhash
  obtain ⟨amountSats, -, hmk⟩ := bind_eq_ok.mp hbinding
  cases hmk
  unfold SettlementCoordinator.new at hnew
  split at hnew
  · cases hnew
  · cases hnew
    exact ⟨contract, live, okOr_eq_ok.mp hcontract, hbinding, rfl, rfl, hlive, rfl, rfl, rfl⟩

/-- A settlement that is prepared passed the gate. -/
theorem prepareSettlement_gate {market : MarketStore} {env : ChallengeEnv}
    {settings : SettlementSettings} {providers : Except PaymentError Providers}
    {options : SettleContractOptions} {baoRoot : Bytes32} {settlement : Settlement}
    (h : (prepareSettlement market env settings providers options baoRoot).1 = .ok settlement) :
    (ensureBaoChallengeGate market env baoRoot options).1 = .ok () := by
  unfold prepareSettlement at h
  split at h
  · cases h
  split at h
  · cases h
  split at h
  · cases h
  · rename_i hgate
    rw [hgate]

/-- Behind the gate only the price, the providers and the threshold can fail. -/
theorem prepareSettlement_ok {market : MarketStore} {env : ChallengeEnv}
    {settings : SettlementSettings} {providers : Except PaymentError Providers}
    {options : SettleContractOptions} {baoRoot : Bytes32} {contract : StorageContract}
    {binding : PaymentBinding} {live : Providers}
    (hcontract : market.getContract baoRoot = some contract)
    (hgate : (ensureBaoChallengeGate market env baoRoot options).1 = .ok ())
    (hbinding : contractBinding market baoRoot settings = .ok binding)
    (hlive : providers = .ok live) (hthreshold : settings.thresholdSats ≠ 0) :
    ∃ settlement,
      (prepareSettlement market env settings providers options baoRoot).1 = .ok settlement := by
  have hvalidate : options.validate = .ok () := by
    unfold ensureBaoChallengeGate at hgate
    split at hgate
    · cases hgate
    · assumption
  have hload : ∃ settlement,
      loadSettlement market settings providers baoRoot = .ok settlement := by
    subst hlive
    have hinvoice : contractInvoiceHash market baoRoot = .ok contract.invoiceHash :=
      bind_eq_ok.mpr ⟨contract, okOr_eq_ok.mpr hcontract, rfl⟩
    unfold loadSettlement
    refine ⟨_, bind_eq_ok.mpr ⟨binding, hbinding, bind_eq_ok.mpr ⟨_, hinvoice,
      bind_eq_ok.mpr ⟨live, rfl, bind_eq_ok.mpr ⟨⟨lightningPaymentProvider live.node,
        ⟨live.micro.verifyMicro⟩, settings.thresholdSats, hthreshold⟩, ?_, rfl⟩⟩⟩⟩⟩
    simp [SettlementCoordinator.new, hthreshold]
  obtain ⟨settlement, hload⟩ := hload
  refine ⟨settlement, ?_⟩
  unfold prepareSettlement
  have hmarket := ensureBaoChallengeGate_market market env baoRoot options
  rcases hrun : ensureBaoChallengeGate market env baoRoot options with ⟨result, market'⟩
  rw [hrun] at hgate hmarket
  cases hgate
  simp only [hcontract, hvalidate]
  rcases hmarket with rfl | ⟨proof, rfl⟩
  · exact hload
  · exact hload

end

theorem exists_live_of_mem_knownPayments {providers : Except PaymentError Providers}
    {payment : PaymentDetails} (h : payment ∈ knownPayments providers) :
    ∃ live, providers = .ok live := by
  cases providers with
  | error err => simp [knownPayments] at h
  | ok live => exact ⟨live, rfl⟩

theorem ne_zero_of_le {threshold amount : UInt64} (hthreshold : threshold ≠ 0)
    (hle : threshold ≤ amount) : amount ≠ 0 := by
  rintro rfl
  exact hthreshold (UInt64.le_zero_iff.mp hle)

/-- A payment of an invoice is one that the scan for its hash stops at. -/
theorem paysInvoice_iff {payment : PaymentDetails} {binding : PaymentBinding} {hash : Bytes32} :
    PaysInvoice payment binding hash ↔
      ∃ msat, binding.amountMsat = some msat ∧ payment.settles msat (some hash) = true := by
  simp only [PaymentBinding.amountMsat_eq_some, PaymentDetails.settles_some, PaysInvoice]
  constructor
  · rintro ⟨hin, hok, hkind, msat, hamount, hmsat⟩
    exact ⟨msat, hmsat, hin, hok, hkind, hamount⟩
  · rintro ⟨msat, hmsat, hin, hok, hkind, hamount⟩
    exact ⟨hin, hok, hkind, msat, hamount, hmsat⟩

/-- On the Lightning rail a settlement with a persisted invoice hash is backed by a payment of that
invoice, and one without succeeds on any payment of the amount. -/
theorem Loaded.lightning_ok [MicroPaymentJson] {market : MarketStore} {settings : SettlementSettings}
    {providers : Except PaymentError Providers} {baoRoot : Bytes32} {settlement : Settlement}
    {contract : StorageContract} {live : Providers}
    (loaded : Loaded market settings providers baoRoot settlement contract live)
    (hrail : settings.thresholdSats ≤ settlement.binding.amountSats) :
    settlement.coordinator.settleContract settlement.binding settlement.credentials = .ok () ↔
      settlement.binding.amountSats ≠ 0 ∧ ∃ payment ∈ knownPayments providers, ∃ hash,
        PaysInvoice payment settlement.binding hash ∧
          (contract.invoiceHash = none ∨ contract.invoiceHash = some hash) := by
  have hgate : settlement.credentials.baoGateSatisfied = true := by rw [loaded.credentials_eq]
  rw [SettlementCoordinator.settleContract_lightning (loaded.threshold_eq ▸ hrail) hgate,
    loaded.lightning_eq, lightningPaymentProvider_ok, ensureStorageContractBinding_ok]
  simp only [settleContractOnNode_ok, ensureStorageContractBinding_ok, loaded.purpose_eq,
    loaded.credentials_eq, loaded.providers_eq, and_true, paysInvoice_iff]
  cases hnode : live.node with
  | error err => simp [knownPayments, hnode]
  | ok payments =>
    simp only [knownPayments, hnode, Except.ok.injEq, exists_eq_left', ne_eq, and_self_left]
    refine and_congr_right fun hamount => ?_
    constructor
    · rintro ⟨msat, hmsat, payment, hmem, hsettles⟩
      cases hinvoice : contract.invoiceHash with
      | some hash =>
        rw [hinvoice] at hsettles
        exact ⟨payment, hmem, hash, ⟨msat, hmsat, hsettles⟩, .inr rfl⟩
      | none =>
        rw [hinvoice, PaymentDetails.settles_none] at hsettles
        obtain ⟨hash, hsettles⟩ := hsettles
        exact ⟨payment, hmem, hash, ⟨msat, hmsat, hsettles⟩, .inl rfl⟩
    · rintro ⟨payment, hmem, hash, ⟨msat, hmsat, hsettles⟩, hinvoice⟩
      refine ⟨msat, hmsat, payment, hmem, ?_⟩
      rcases hinvoice with hinvoice | hinvoice <;> rw [hinvoice]
      · exact PaymentDetails.settles_none.mpr ⟨hash, hsettles⟩
      · exact hsettles

/-- On the ecash rail a settlement is backed by the receipt persisted for the root. -/
theorem Loaded.ecash_ok [MicroPaymentJson] {market : MarketStore} {settings : SettlementSettings}
    {providers : Except PaymentError Providers} {baoRoot : Bytes32} {settlement : Settlement}
    {contract : StorageContract} {live : Providers}
    (loaded : Loaded market settings providers baoRoot settlement contract live)
    (hrail : ¬settings.thresholdSats ≤ settlement.binding.amountSats)
    (h : settlement.coordinator.settleContract settlement.binding settlement.credentials = .ok ()) :
    ∃ receipt, market.getEcashReceipt baoRoot = some receipt ∧
      receipt.reference = ecashBindingReference settlement.binding := by
  obtain ⟨reference, hreference, hverify⟩ :=
    SettlementCoordinator.settleContract_ecash (loaded.threshold_eq ▸ hrail) h
  rw [loaded.credentials_eq] at hreference
  rw [loaded.micro_eq] at hverify
  obtain ⟨receipt, hreceipt, rfl⟩ := Option.map_eq_some_iff.mp hreference
  exact ⟨receipt, hreceipt, MicroRail.verifyMicro_ok hverify⟩

/-- No payment pays the invoices of two roots whose persisted hashes differ. -/
theorem PaidBy.ne {market : MarketStore} {settings : SettlementSettings}
    {baoRoot other : Bytes32} {payment payment' : PaymentDetails}
    (hdistinct : ∀ hash hash', InvoicePersisted market baoRoot hash →
      InvoicePersisted market other hash' → hash ≠ hash')
    (h : PaidBy market settings baoRoot payment) (h' : PaidBy market settings other payment') :
    payment ≠ payment' := by
  rintro rfl
  obtain ⟨-, hash, -, hpersisted, -, -, hkind, -⟩ := h
  obtain ⟨-, hash', -, hpersisted', -, -, hkind', -⟩ := h'
  rw [hkind] at hkind'
  exact hdistinct hash hash' hpersisted hpersisted' (by simpa using hkind')

section

variable [Carbonado] [MicroPaymentJson]

/-- The settlement of one root is backed exactly when its contract does not reach the Lightning
rail uninvoiced beside a payment of its amount. -/
theorem settle_backed_iff (market : MarketStore) (env : ChallengeEnv)
    (settings : SettlementSettings) (providers : Except PaymentError Providers)
    (options : SettleContractOptions) (baoRoot : Bytes32) :
    ((settleStorageContract market env settings providers options baoRoot).1 = .ok () →
        Backed market settings providers baoRoot) ↔
      ¬Uninvoiced market env settings providers options baoRoot := by
  unfold settleStorageContract
  rcases hprepare : prepareSettlement market env settings providers options baoRoot with
    ⟨result, market'⟩
  cases result with
  | error err =>
    constructor
    · rintro - ⟨contract, binding, hcontract, -, hgate, hbinding, hthreshold, -, payment, hmem, -⟩
      obtain ⟨live, hlive⟩ := exists_live_of_mem_knownPayments hmem
      obtain ⟨settlement, hok⟩ :=
        prepareSettlement_ok hcontract hgate hbinding hlive hthreshold
      rw [hprepare] at hok
      cases hok
    · rintro - ⟨⟩
  | ok settlement =>
    obtain ⟨contract, live, loaded⟩ := prepareSettlement_loaded (by rw [hprepare])
    have hrail : OnLightning market settings baoRoot ↔
        settings.thresholdSats ≤ settlement.binding.amountSats := by
      constructor
      · rintro ⟨binding, hbinding, hle⟩
        rw [loaded.binding_eq] at hbinding
        cases hbinding
        exact hle
      · exact fun hle => ⟨settlement.binding, loaded.binding_eq, hle⟩
    by_cases hle : settings.thresholdSats ≤ settlement.binding.amountSats
    · constructor
      · rintro hbacked ⟨_, _, hcontract, hnone, -, hbinding, hthreshold, -, payment, hmem, hash,
          hpays⟩
        rw [loaded.contract_eq] at hcontract
        rw [loaded.binding_eq] at hbinding
        cases hcontract
        cases hbinding
        have hamount := ne_zero_of_le hthreshold hle
        rcases hbacked ((loaded.lightning_ok hle).mpr
          ⟨hamount, payment, hmem, hash, hpays, .inl hnone⟩) with h | h
        · obtain ⟨-, -, -, -, hash', -, ⟨contract', hcontract', hinvoice⟩, -⟩ := h
          rw [loaded.contract_eq] at hcontract'
          cases hcontract'
          rw [hnone] at hinvoice
          cases hinvoice
        · exact h.1 (hrail.mpr hle)
      · intro hno hok
        obtain ⟨-, payment, hmem, hash, hpays, hinvoice⟩ := (loaded.lightning_ok hle).mp hok
        rcases hinvoice with hinvoice | hinvoice
        · exact absurd ⟨contract, settlement.binding, loaded.contract_eq, hinvoice,
            prepareSettlement_gate (by rw [hprepare]), loaded.binding_eq,
            loaded.threshold_eq ▸ settlement.coordinator.threshold_ne_zero, hle, payment, hmem,
            hash, hpays⟩ hno
        · exact .inl ⟨hrail.mpr hle, payment, hmem, settlement.binding, hash, loaded.binding_eq,
            ⟨contract, loaded.contract_eq, hinvoice⟩, hpays⟩
    · constructor
      · rintro - ⟨_, _, -, -, -, hbinding, -, hle', -⟩
        rw [loaded.binding_eq] at hbinding
        cases hbinding
        exact hle hle'
      · intro _ hok
        obtain ⟨receipt, hreceipt, hreference⟩ := loaded.ecash_ok hle hok
        exact .inr ⟨mt hrail.mp hle, settlement.binding, receipt, loaded.binding_eq, hreceipt,
          hreference⟩

/-- A settlement that returns `Ok` is backed by the root's own credential exactly when the contract
does not reach the Lightning rail uninvoiced beside a payment of its amount.  Two roots that are
settled so on the Lightning rail, with different invoice hashes, are paid by different payments. -/
theorem settleStorageContract_backed_iff (market : MarketStore) (env : ChallengeEnv)
    (settings : SettlementSettings) (providers : Except PaymentError Providers)
    (options : SettleContractOptions) (baoRoot : Bytes32) :
    (((settleStorageContract market env settings providers options baoRoot).1 = .ok () →
        Backed market settings providers baoRoot) ↔
      ¬Uninvoiced market env settings providers options baoRoot) ∧
    ∀ other : Bytes32,
      (∀ hash hash', InvoicePersisted market baoRoot hash → InvoicePersisted market other hash' →
        hash ≠ hash') →
      OnLightning market settings baoRoot → OnLightning market settings other →
      ¬Uninvoiced market env settings providers options baoRoot →
      ¬Uninvoiced market env settings providers options other →
      (settleStorageContract market env settings providers options baoRoot).1 = .ok () →
      (settleStorageContract market env settings providers options other).1 = .ok () →
      ∃ payment ∈ knownPayments providers, ∃ payment' ∈ knownPayments providers,
        payment ≠ payment' ∧ PaidBy market settings baoRoot payment ∧
          PaidBy market settings other payment' := by
  refine ⟨settle_backed_iff market env settings providers options baoRoot, ?_⟩
  intro other hdistinct hlightning hlightning' hinvoiced hinvoiced' hok hok'
  have hbacked := (settle_backed_iff market env settings providers options baoRoot).mpr hinvoiced hok
  have hbacked' := (settle_backed_iff market env settings providers options other).mpr hinvoiced' hok'
  rcases hbacked with ⟨-, payment, hmem, hpaid⟩ | ⟨hno, -⟩
  · rcases hbacked' with ⟨-, payment', hmem', hpaid'⟩ | ⟨hno, -⟩
    · exact ⟨payment, hmem, payment', hmem', PaidBy.ne hdistinct hpaid hpaid', hpaid, hpaid'⟩
    · exact absurd hlightning' hno
  · exact absurd hlightning hno

end

/-! ### One payment for two contracts -/

def otherRoot : Bytes32 := Bytes32.replicate 8

def exampleInvoice : Bytes32 := Bytes32.replicate 9

/-- Two contracts that passed their challenges, of which only the first was invoiced. -/
def twoContracts : MarketStore :=
  ((((MarketStore.empty.putContract ⟨exampleRoot, 1, .pub, false, 0, .active, some exampleInvoice⟩
    ).putContract ⟨otherRoot, 1, .pub, false, 0, .active, none⟩
    ).putChallengeProof ⟨exampleRoot, 0, 8, 8⟩
    ).putChallengeProof ⟨otherRoot, 0, 8, 8⟩)

/-- A node that received the payment of the first invoice and no other. -/
def oneLivePayment : Except PaymentError Providers :=
  .ok ⟨.ok [⟨.bolt11 exampleInvoice, some 10000000, .inbound, .succeeded⟩], .stub⟩

/-- The one payment settles both contracts, and no invoice of the second one exists. -/
theorem settleStorageContract_one_payment_twice :
    let env : ChallengeEnv := ⟨exampleDir, keepOrder, .ok 0⟩
    let settings : SettlementSettings := ⟨1000, 10000⟩
    (@settleStorageContract exampleCodec sampleJson twoContracts env settings oneLivePayment ⟨none⟩
        exampleRoot).1 = .ok () ∧
      (@settleStorageContract exampleCodec sampleJson twoContracts env settings oneLivePayment ⟨none⟩
        otherRoot).1 = .ok () ∧
      OnLightning twoContracts settings otherRoot ∧
      ¬Backed twoContracts settings oneLivePayment otherRoot := by
  have hcontract : twoContracts.getContract otherRoot =
      some ⟨otherRoot, 1, .pub, false, 0, .active, none⟩ := by decide +kernel
  have hlightning : OnLightning twoContracts ⟨1000, 10000⟩ otherRoot :=
    ⟨⟨otherRoot, .storageContract, 10000⟩, by decide +kernel, by decide⟩
  refine ⟨by decide +kernel, by decide +kernel, hlightning, ?_⟩
  rintro (⟨-, payment, -, -, hash, -, ⟨contract, hsome, hinvoice⟩, -⟩ | ⟨hno, -⟩)
  · rw [hcontract] at hsome
    cases hsome
    cases hinvoice
  · exact hno hlightning

end Lord.Market
