import Lord.Market.Invoices

/-! Contracts that are paid: what an invoice persists is kept by every call, and a settlement finds it
again when it computes the amount and the rail of the invoice. -/

namespace Lord.Market

open Storage Payments Runs

/-! ### What the calls keep -/

/-- Every contract lies under its own root. -/
def MarketStore.Keyed (market : MarketStore) : Prop :=
  ∀ baoRoot contract, market.getContract baoRoot = some contract → contract.baoRoot = baoRoot

/-- The credentials of the contracts stay. -/
structure MarketStore.Kept (market market' : MarketStore) : Prop where
  keyed : market'.Keyed
  contract : ∀ baoRoot, (market.getContract baoRoot).isSome = true →
    (market'.getContract baoRoot).isSome = true
  hash : ∀ baoRoot hash, InvoicePersisted market baoRoot hash → InvoicePersisted market' baoRoot hash
  receipt : ∀ baoRoot receipt, market.getEcashReceipt baoRoot = some receipt →
    market'.getEcashReceipt baoRoot = some receipt

namespace MarketStore

variable {market market' market'' : MarketStore}

theorem Kept.refl (h : market.Keyed) : market.Kept market :=
  ⟨h, fun _ => id, fun _ _ => id, fun _ _ => id⟩

theorem Kept.trans (h : market.Kept market') (hnext : market'.Kept market'') : market.Kept market'' :=
  ⟨hnext.keyed, fun r hr => hnext.contract r (h.contract r hr),
    fun r hash hr => hnext.hash r hash (h.hash r hash hr),
    fun r receipt hr => hnext.receipt r receipt (h.receipt r receipt hr)⟩

theorem getContract_putContract (contract : StorageContract) (baoRoot : Bytes32) :
    (market.putContract contract).getContract baoRoot =
      if contract.baoRoot = baoRoot then some contract else market.getContract baoRoot := by
  simp only [getContract, putContract, Std.ExtTreeMap.getElem?_insert, Std.LawfulEqCmp.compare_eq_iff_eq,
    Subtype.ext_iff]

theorem getEcashReceipt_putEcashReceipt (receipt : EcashReceiptRecord) (baoRoot : Bytes32) :
    (market.putEcashReceipt receipt).getEcashReceipt baoRoot =
      if receipt.baoRoot = baoRoot then some receipt else market.getEcashReceipt baoRoot := by
  simp only [getEcashReceipt, putEcashReceipt, Std.ExtTreeMap.getElem?_insert,
    Std.LawfulEqCmp.compare_eq_iff_eq, Subtype.ext_iff]

/-- A contract may be replaced by one that keeps its invoice hash. -/
theorem kept_putContract (h : market.Keyed) {contract : StorageContract}
    (hsame : ∀ old, market.getContract contract.baoRoot = some old →
      ∀ hash, old.invoiceHash = some hash → contract.invoiceHash = some hash) :
    market.Kept (market.putContract contract) where
  keyed := by
    intro baoRoot found hfound
    rw [getContract_putContract] at hfound
    split at hfound
    · rename_i heq
      cases hfound
      exact heq
    · exact h baoRoot found hfound
  contract := by
    intro baoRoot hsome
    rw [getContract_putContract]
    split
    · rfl
    · exact hsome
  hash := by
    rintro baoRoot hash ⟨old, hold, hhash⟩
    rw [InvoicePersisted, getContract_putContract]
    split
    · rename_i heq
      exact ⟨contract, rfl, hsame old (heq ▸ hold) hash hhash⟩
    · exact ⟨old, hold, hhash⟩
  receipt := fun _ _ => id

theorem kept_putEcashReceipt (h : market.Keyed) {receipt : EcashReceiptRecord}
    (hnone : market.getEcashReceipt receipt.baoRoot = none) :
    market.Kept (market.putEcashReceipt receipt) where
  keyed := h
  contract := fun _ => id
  hash := fun _ _ => id
  receipt := by
    intro baoRoot found hfound
    rw [getEcashReceipt_putEcashReceipt]
    split
    · rename_i heq
      rw [heq, hfound] at hnone
      cases hnone
    · exact hfound

theorem kept_putChallengeProof (h : market.Keyed) (proof : ChallengeProof) :
    market.Kept (market.putChallengeProof proof) :=
  ⟨h, fun _ => id, fun _ _ => id, fun _ _ => id⟩

theorem kept_requestStorageContract (h : market.Keyed) {dir : DataDir} {mutualAidEnabled : Bool}
    {baoRoot : Bytes32} {options : RequestContractOptions} {createdAt : UInt64}
    (hrequest : requestStorageContract market dir mutualAidEnabled baoRoot options createdAt =
      .ok market') : market.Kept market' := by
  unfold requestStorageContract at hrequest
  split at hrequest
  · cases hrequest
  · split at hrequest
    · cases hrequest
    · obtain ⟨row, -, hrequest⟩ := bind_eq_ok.mp hrequest
      split at hrequest
      · cases hrequest
      · split at hrequest
        · cases hrequest
        · split at hrequest
          · cases hrequest
          · rename_i hnone
            cases hrequest
            refine kept_putContract h fun old hold => ?_
            rw [show (newPendingContract baoRoot options createdAt).baoRoot = baoRoot from rfl] at hold
            rw [hold] at hnone
            exact absurd rfl hnone

theorem kept_putContractPricing (h : market.Keyed) {pricing : ContractPricingRecord}
    (hprice : putContractPricing market pricing = .ok market') : market.Kept market' := by
  unfold putContractPricing at hprice
  split at hprice
  · cases hprice
  · cases hprice
    exact ⟨h, fun _ => id, fun _ _ => id, fun _ _ => id⟩

/-- An invoice hash is set once. -/
theorem persistInvoiceHash_ok (h : market.Keyed) {baoRoot paymentHash : Bytes32}
    (hpersist : persistInvoiceHash market baoRoot paymentHash = .ok market') :
    market.Kept market' ∧ InvoicePersisted market' baoRoot paymentHash := by
  obtain ⟨contract, hcontract, hpersist⟩ := bind_eq_ok.mp hpersist
  rw [okOr_eq_ok] at hcontract
  have hroot := h baoRoot contract hcontract
  split at hpersist
  · rename_i existing hexisting
    split at hpersist
    · rename_i heq
      cases hpersist
      exact ⟨.refl h, contract, hcontract, by rw [hexisting, heq]⟩
    · cases hpersist
  · rename_i hnone
    cases hpersist
    refine ⟨kept_putContract h fun old hold hash hhash => ?_,
      { contract with invoiceHash := some paymentHash }, ?_, rfl⟩
    · dsimp only at hold
      rw [hroot, hcontract] at hold
      cases hold
      rw [hnone] at hhash
      cases hhash
    · rw [getContract_putContract, if_pos hroot]

/-- A receipt is set once. -/
theorem persistEcashReceipt_ok (h : market.Keyed) {binding : PaymentBinding} {reference : String}
    (hpersist : persistEcashReceipt market binding reference = .ok market') :
    market.Kept market' ∧ reference = ecashBindingReference binding ∧
      ∃ receipt, market'.getEcashReceipt binding.baoRoot = some receipt ∧
        receipt.reference = reference := by
  unfold persistEcashReceipt at hpersist
  split at hpersist
  · cases hpersist
  · rename_i hreference
    rw [not_not] at hreference
    split at hpersist
    · rename_i existing hexisting
      split at hpersist
      · rename_i heq
        cases hpersist
        exact ⟨.refl h, hreference, existing, hexisting, heq⟩
      · cases hpersist
    · rename_i hnone
      cases hpersist
      exact ⟨kept_putEcashReceipt h hnone, hreference, _,
        by rw [getEcashReceipt_putEcashReceipt, if_pos rfl], rfl⟩

theorem kept_persistCredential (h : market.Keyed) {binding : PaymentBinding} {result : SettlementResult}
    (hpersist : persistCredential market binding result = .ok market') : market.Kept market' := by
  unfold persistCredential at hpersist
  split at hpersist
  · exact (persistInvoiceHash_ok h hpersist).1
  · cases hpersist
    exact .refl h
  · exact (persistEcashReceipt_ok h hpersist).1

end MarketStore

/-- A settlement changes no more than the challenge proofs. -/
theorem settleStorageContract_market [Carbonado] [MicroPaymentJson] (market : MarketStore)
    (env : ChallengeEnv)
    (settings : SettlementSettings) (providers : Except PaymentError Providers)
    (options : SettleContractOptions) (baoRoot : Bytes32) :
    (settleStorageContract market env settings providers options baoRoot).2 = market ∨
      ∃ proof, (settleStorageContract market env settings providers options baoRoot).2 =
        market.putChallengeProof proof := by
  have hprepare : (prepareSettlement market env settings providers options baoRoot).2 = market ∨
      ∃ proof, (prepareSettlement market env settings providers options baoRoot).2 =
        market.putChallengeProof proof := by
    unfold prepareSettlement
    split
    · exact .inl rfl
    · split
      · exact .inl rfl
      · have hgate := ensureBaoChallengeGate_market market env baoRoot options
        rcases hrun : ensureBaoChallengeGate market env baoRoot options with ⟨result, market'⟩
        rw [hrun] at hgate
        cases result with
        | error err => exact hgate
        | ok u => exact hgate
  unfold settleStorageContract
  rcases hrun : prepareSettlement market env settings providers options baoRoot with ⟨result, market'⟩
  rw [hrun] at hprepare
  cases result with
  | error err => exact hprepare
  | ok settlement => exact hprepare

/-- The credentials and the payments that succeeded stay. -/
structure MarketState.Kept (s s' : MarketState) : Prop where
  market : s.market.Kept s'.market
  payments : ∀ payment ∈ s.payments, payment.status = .succeeded → payment ∈ s'.payments

namespace MarketState

variable {s s' s'' : MarketState}

theorem Kept.refl (h : s.market.Keyed) : Kept s s :=
  ⟨.refl h, fun _ hmem _ => hmem⟩

theorem Kept.trans (h : Kept s s') (hnext : Kept s' s'') : Kept s s'' :=
  ⟨h.market.trans hnext.market, fun payment hmem hok => hnext.payments payment (h.payments payment hmem hok) hok⟩

/-- A call that changes the market store only. -/
theorem Kept.of_market {market : MarketStore} (h : s.market.Kept market) :
    Kept s { s with market } :=
  ⟨h, fun _ hmem _ => hmem⟩

/-- A call that changes the ledger only. -/
theorem Kept.of_ledger (h : s.market.Keyed) (ledger : MicroPaymentLedger) :
    Kept s { s with ledger } :=
  ⟨.refl h, fun _ hmem _ => hmem⟩

/-- What is prepared for an invoice is of the contract's own root and of the state's ledger. -/
theorem prepareInvoice_ok [MicroPaymentJson] {settings : SettlementSettings} {app : Except PaymentError Bool}
    {node : Except PaymentError InvoiceNode} {baoRoot : Bytes32} {request : InvoiceRequest}
    (h : prepareInvoice s.market settings (s.invoiceProviders app node) baoRoot = .ok request) :
    contractBinding s.market baoRoot settings = .ok request.binding ∧
      request.binding.baoRoot = baoRoot ∧ request.binding.purpose = .storageContract ∧
      request.coordinator.thresholdSats = settings.thresholdSats ∧
      (s.market.getContract baoRoot).isSome = true ∧
      ∃ live, app = .ok live ∧ request.providers.micro = s.microRail live := by
  obtain ⟨⟨⟩, hexists, h⟩ := bind_eq_ok.mp h
  obtain ⟨binding, hbinding, h⟩ := bind_eq_ok.mp h
  obtain ⟨providers, hproviders, h⟩ := bind_eq_ok.mp h
  obtain ⟨coordinator, hnew, h⟩ := bind_eq_ok.mp h
  cases h
  obtain ⟨live, happ, hproviders⟩ := bind_eq_ok.mp hproviders
  cases hproviders
  refine ⟨hbinding, ?_, ?_, ?_, ?_, live, happ, rfl⟩
  · obtain ⟨amountSats, -, hmk⟩ := bind_eq_ok.mp hbinding
    cases hmk
    rfl
  · obtain ⟨amountSats, -, hmk⟩ := bind_eq_ok.mp hbinding
    cases hmk
    rfl
  · unfold SettlementCoordinator.new at hnew
    split at hnew
    · cases hnew
    · cases hnew
      rfl
  · unfold ensureContractExists at hexists
    split at hexists
    · rename_i contract hcontract
      rw [hcontract]
      rfl
    · cases hexists

theorem kept_invoice [MicroPaymentJson] (h : s.market.Keyed) (settings : SettlementSettings)
    (app : Except PaymentError Bool) (node : Except PaymentError InvoiceNode) (ledgerEnv : LedgerEnv)
    (baoRoot : Bytes32) : Kept s (s.invoice settings app node ledgerEnv baoRoot).2 := by
  unfold invoice createInvoiceForContract
  cases prepareInvoice s.market settings (s.invoiceProviders app node) baoRoot with
  | error err => exact .refl h
  | ok request =>
    dsimp only
    rcases request.coordinator.createInvoice request.providers.invoices request.providers.micro ledgerEnv
      request.binding with ⟨result, rail⟩
    cases result with
    | error err => exact .of_ledger h _
    | ok result =>
      dsimp only
      cases hpersist : persistCredential s.market request.binding result with
      | error err => exact .of_ledger h _
      | ok market' => exact ⟨MarketStore.kept_persistCredential h hpersist, fun _ hmem _ => hmem⟩

variable [Carbonado] [MicroPaymentJson]

theorem kept_settle (h : s.market.Keyed) (env : ChallengeEnv) (settings : SettlementSettings)
    (app : Except PaymentError Bool) (node : Except PaymentError Unit)
    (options : SettleContractOptions) (baoRoot : Bytes32) :
    Kept s (s.settle env settings app node options baoRoot).2 := by
  have hmarket := settleStorageContract_market s.market env settings (s.providers app node) options baoRoot
  unfold settle
  rcases hrun : settleStorageContract s.market env settings (s.providers app node) options baoRoot with
    ⟨result, market⟩
  rw [hrun] at hmarket
  rcases hmarket with hsame | ⟨proof, hproof⟩
  · dsimp only at hsame
    rw [hsame]
    exact .refl h
  · dsimp only at hproof
    rw [hproof]
    exact .of_market (MarketStore.kept_putChallengeProof h proof)

/-- No call takes back a credential. -/
theorem kept_exec (h : s.market.Keyed) (call : Call) : Kept s (s.exec call) := by
  cases call with
  | request dir mutualAidEnabled baoRoot options createdAt =>
    cases hrequest : requestStorageContract s.market dir mutualAidEnabled baoRoot options createdAt with
    | error err =>
      simp only [exec, hrequest]
      exact .refl h
    | ok market =>
      simp only [exec, hrequest]
      exact .of_market (MarketStore.kept_requestStorageContract h hrequest)
  | price pricing =>
    cases hprice : putContractPricing s.market pricing with
    | error err =>
      simp only [exec, hprice]
      exact .refl h
    | ok market =>
      simp only [exec, hprice]
      exact .of_market (MarketStore.kept_putContractPricing h hprice)
  | challenge env baoRootHex sampleRate =>
    refine .of_market ?_
    rcases challengeReplication_market s.market env baoRootHex sampleRate with
      hsame | ⟨-, -, proof, -, -, hproof⟩
    · rw [hsame]
      exact .refl h
    · rw [hproof]
      exact MarketStore.kept_putChallengeProof h proof
  | invoice settings app node ledgerEnv baoRoot => exact kept_invoice h settings app node ledgerEnv baoRoot
  | settle env settings app node options baoRoot => exact kept_settle h env settings app node options baoRoot
  | challengeFee thresholdSats challengeFeeSats app node ledgerEnv baoRoot => exact .of_ledger h _
  | listed payments =>
    refine ⟨.refl h, fun payment hmem hok => ?_⟩
    exact List.mem_append_left _ (List.mem_filter.mpr ⟨hmem, decide_eq_true hok⟩)

/-! ### The statement -/

/-- The rail that the settings route an amount to. -/
def railOf (settings : SettlementSettings) (amountSats : UInt64) : SettlementRail :=
  if settings.thresholdSats ≤ amountSats then .lightning else .ecash

/-- The payment that the result of an invoice names has been made. -/
def Made (s : MarketState) (baoRoot : Bytes32) (result : SettlementResult) : Prop :=
  match result.rail with
  | .lightning => ∃ payment ∈ s.payments, ∃ hash, result.paymentHash = some hash ∧
      PaysInvoice payment ⟨baoRoot, .storageContract, result.amountSats⟩ hash
  | .ecash =>
    s.ledger.hasPayment ⟨baoRoot, .storageContract, result.amountSats⟩ result.reference = .ok true

/-- The settings give the contract the amount and the rail of its invoice. -/
def AsInvoiced (s : MarketState) (settings : SettlementSettings) (baoRoot : Bytes32)
    (result : SettlementResult) : Prop :=
  settings.thresholdSats ≠ 0 ∧ contractAmountSats s.market baoRoot settings = .ok result.amountSats ∧
    railOf settings result.amountSats = result.rail

/-- The contract is paid with an amount on a rail, by the credentials that are persisted for it. -/
def Paid (s : MarketState) (live : Bool) (baoRoot : Bytes32) (amountSats : UInt64) :
    SettlementRail → Prop
  | .lightning => ∃ contract, s.market.getContract baoRoot = some contract ∧
      ∃ payment ∈ s.payments, ∃ hash,
        PaysInvoice payment ⟨baoRoot, .storageContract, amountSats⟩ hash ∧
          (contract.invoiceHash = none ∨ contract.invoiceHash = some hash)
  | .ecash => live = true ∧ ∃ receipt, s.market.getEcashReceipt baoRoot = some receipt ∧
      receipt.reference = ecashBindingReference ⟨baoRoot, .storageContract, amountSats⟩ ∧
        s.ledger.hasPayment ⟨baoRoot, .storageContract, amountSats⟩ receipt.reference = .ok true

/-- The settings give the contract another amount or another rail than its invoice, and it is paid with
that one as well. -/
def PaidOtherwise (s : MarketState) (live : Bool) (settings : SettlementSettings) (baoRoot : Bytes32)
    (result : SettlementResult) : Prop :=
  settings.thresholdSats ≠ 0 ∧ ∃ amountSats,
    contractAmountSats s.market baoRoot settings = .ok amountSats ∧ amountSats ≠ 0 ∧
      (amountSats ≠ result.amountSats ∨ railOf settings amountSats ≠ result.rail) ∧
      Paid s live baoRoot amountSats (railOf settings amountSats)

/-! ### Settlements -/

omit [Carbonado] [MicroPaymentJson] in
theorem contractBinding_ok {market : MarketStore} {baoRoot : Bytes32} {settings : SettlementSettings}
    {binding : PaymentBinding} : contractBinding market baoRoot settings = .ok binding ↔
      ∃ amountSats, contractAmountSats market baoRoot settings = .ok amountSats ∧
        binding = ⟨baoRoot, .storageContract, amountSats⟩ := by
  constructor
  · intro h
    obtain ⟨amountSats, hamount, h⟩ := bind_eq_ok.mp h
    cases h
    exact ⟨amountSats, hamount, rfl⟩
  · rintro ⟨amountSats, hamount, rfl⟩
    exact bind_eq_ok.mpr ⟨amountSats, hamount, rfl⟩

omit [MicroPaymentJson] in
/-- The gate is open when a proof of the challenge is persisted. -/
theorem ensureBaoChallengeGate_persisted {market : MarketStore} {env : ChallengeEnv} {baoRoot : Bytes32} :
    (ensureBaoChallengeGate market env baoRoot ⟨none⟩).1 = .ok () ↔
      (market.getChallengeProof baoRoot).isSome = true := by
  unfold ensureBaoChallengeGate
  show (if (market.getChallengeProof baoRoot).isSome = true then _ else _ : _ × _).1 = _ ↔ _
  split
  · rename_i hsome
    exact iff_of_true rfl hsome
  · rename_i hnone
    exact iff_of_false nofun hnone

omit [Carbonado] in
theorem verifyMicro_microRail {s : MarketState} {live : Bool} {binding : PaymentBinding}
    {reference : String} : (s.microRail live).verifyMicro binding reference = .ok () ↔
      live = true ∧ reference = ecashBindingReference binding ∧
        s.ledger.hasPayment binding reference = .ok true := by
  cases live with
  | false => exact iff_of_false (fun h => by cases h) fun h => Bool.false_ne_true h.1
  | true =>
    rw [show s.microRail true = .live true (some s.ledger) from rfl, MicroRail.verifyMicro_live]
    exact ⟨fun h => ⟨rfl, h⟩, And.right⟩

omit [Carbonado] in
/-- What a settlement does on the rail that it is loaded for. -/
theorem settleContract_loaded {s : MarketState} {settings : SettlementSettings} {live : Bool}
    {baoRoot : Bytes32} {settlement : Settlement} {contract : StorageContract} {amountSats : UInt64}
    {providers : Providers}
    (loaded : Loaded s.market settings (s.providers (.ok live) (.ok ())) baoRoot settlement contract
      providers)
    (hbinding : settlement.binding = ⟨baoRoot, .storageContract, amountSats⟩) :
    settlement.coordinator.settleContract settlement.binding settlement.credentials = .ok () ↔
      amountSats ≠ 0 ∧ Paid s live baoRoot amountSats (railOf settings amountSats) := by
  have hproviders := loaded.providers_eq
  rw [show s.providers (.ok live) (.ok ()) = .ok ⟨.ok s.payments, s.microRail live⟩ from rfl] at hproviders
  cases hproviders
  by_cases hrail : settings.thresholdSats ≤ amountSats
  · rw [loaded.lightning_ok (by rw [hbinding]; exact hrail), hbinding, railOf, if_pos hrail]
    refine and_congr_right fun _ => ?_
    constructor
    · rintro ⟨payment, hmem, hash, hpays, hhash⟩
      exact ⟨contract, loaded.contract_eq, payment, hmem, hash, hpays, hhash⟩
    · rintro ⟨other, hother, payment, hmem, hash, hpays, hhash⟩
      rw [loaded.contract_eq] at hother
      cases hother
      exact ⟨payment, hmem, hash, hpays, hhash⟩
  · have hthreshold : ¬settlement.coordinator.thresholdSats ≤ settlement.binding.amountSats := by
      rw [loaded.threshold_eq, hbinding]
      exact hrail
    rw [railOf, if_neg hrail]
    constructor
    · intro h
      have hpositive : amountSats ≠ 0 := by
        obtain ⟨⟨⟩, hensure, -⟩ := bind_eq_ok.mp h
        rw [hbinding] at hensure
        exact (ensureStorageContractBinding_ok.mp hensure).1
      obtain ⟨reference, hreference, hverify⟩ := SettlementCoordinator.settleContract_ecash hthreshold h
      rw [loaded.credentials_eq] at hreference
      rw [loaded.micro_eq, hbinding] at hverify
      obtain ⟨receipt, hreceipt, rfl⟩ := Option.map_eq_some_iff.mp hreference
      obtain ⟨hlive, hsame, hpaid⟩ := verifyMicro_microRail.mp hverify
      exact ⟨hpositive, hlive, receipt, hreceipt, hsame, hpaid⟩
    · rintro ⟨hpositive, hlive, receipt, hreceipt, hsame, hpaid⟩
      have hreference : settlement.credentials.ecashReceipt = some receipt.reference := by
        rw [loaded.credentials_eq]
        exact Option.map_eq_some_iff.mpr ⟨receipt, hreceipt, rfl⟩
      have hgate : settlement.credentials.baoGateSatisfied = true := by rw [loaded.credentials_eq]
      have hensure : ensureStorageContractBinding settlement.binding = .ok () := by
        rw [hbinding]
        exact ensureStorageContractBinding_ok.mpr ⟨hpositive, rfl⟩
      have hverify := verifyMicro_microRail.mpr ⟨hlive, hsame, hpaid⟩
      unfold SettlementCoordinator.settleContract
      refine bind_eq_ok.mpr ⟨(), hensure, ?_⟩
      rw [hgate, SettlementCoordinator.railForAmount, if_neg hthreshold, hreference, loaded.micro_eq,
        hbinding]
      exact hverify

/-- A settlement behind a persisted proof returns when the contract is paid with the amount on the rail
that the settings give it. -/
theorem settle_iff {s : MarketState} {env : ChallengeEnv} {settings : SettlementSettings} {live : Bool}
    {baoRoot : Bytes32} (hproof : (s.market.getChallengeProof baoRoot).isSome = true)
    (hcontract : (s.market.getContract baoRoot).isSome = true) :
    (s.settle env settings (.ok live) (.ok ()) ⟨none⟩ baoRoot).1 = .ok () ↔
      settings.thresholdSats ≠ 0 ∧ ∃ amountSats,
        contractAmountSats s.market baoRoot settings = .ok amountSats ∧ amountSats ≠ 0 ∧
          Paid s live baoRoot amountSats (railOf settings amountSats) := by
  have hsettle : (s.settle env settings (.ok live) (.ok ()) ⟨none⟩ baoRoot).1 = .ok () ↔
      ∃ settlement, (prepareSettlement s.market env settings (s.providers (.ok live) (.ok ())) ⟨none⟩
          baoRoot).1 = .ok settlement ∧
        settlement.coordinator.settleContract settlement.binding settlement.credentials = .ok () := by
    unfold settle settleStorageContract
    rcases prepareSettlement s.market env settings (s.providers (.ok live) (.ok ())) ⟨none⟩ baoRoot with
      ⟨result, market⟩
    cases result with
    | error err => exact iff_of_false nofun nofun
    | ok settlement =>
      constructor
      · intro h
        exact ⟨settlement, rfl, h⟩
      · rintro ⟨_, hsame, h⟩
        cases hsame
        exact h
  rw [hsettle]
  constructor
  · rintro ⟨settlement, hprepare, h⟩
    obtain ⟨contract, live', loaded⟩ := prepareSettlement_loaded hprepare
    obtain ⟨amountSats, hamount, hbinding⟩ := contractBinding_ok.mp loaded.binding_eq
    exact ⟨loaded.threshold_eq ▸ settlement.coordinator.threshold_ne_zero, amountSats, hamount,
      (settleContract_loaded loaded hbinding).mp h⟩
  · rintro ⟨hthreshold, amountSats, hamount, hpaid⟩
    obtain ⟨contract, hcontract⟩ := Option.isSome_iff_exists.mp hcontract
    obtain ⟨settlement, hprepare⟩ := prepareSettlement_ok hcontract
      (ensureBaoChallengeGate_persisted.mpr hproof) (contractBinding_ok.mpr ⟨amountSats, hamount, rfl⟩)
      (show s.providers (.ok live) (.ok ()) = .ok _ from rfl) hthreshold
    refine ⟨settlement, hprepare, ?_⟩
    obtain ⟨contract', live', loaded⟩ := prepareSettlement_loaded hprepare
    obtain ⟨amount', hamount', hbinding⟩ := contractBinding_ok.mp loaded.binding_eq
    rw [hamount] at hamount'
    cases hamount'
    exact (settleContract_loaded loaded hbinding).mpr hpaid

/-! ### Invoices -/

/-- The credential of an invoice is persisted for the root. -/
def Persisted (s : MarketState) (live : Bool) (baoRoot : Bytes32) (result : SettlementResult) : Prop :=
  match result.rail with
  | .lightning => ∃ hash, result.paymentHash = some hash ∧ InvoicePersisted s.market baoRoot hash
  | .ecash => live = true ∧
      result.reference = ecashBindingReference ⟨baoRoot, .storageContract, result.amountSats⟩ ∧
      ∃ receipt, s.market.getEcashReceipt baoRoot = some receipt ∧ receipt.reference = result.reference

omit [Carbonado] [MicroPaymentJson] in
theorem Persisted.kept {s s' : MarketState} {live : Bool} {baoRoot : Bytes32} {result : SettlementResult}
    (h : Persisted s live baoRoot result) (hkept : Kept s s') : Persisted s' live baoRoot result := by
  unfold Persisted at h ⊢
  split at h
  · obtain ⟨hash, hhash, hpersisted⟩ := h
    exact ⟨hash, hhash, hkept.market.hash baoRoot hash hpersisted⟩
  · obtain ⟨hlive, href, receipt, hreceipt, hsame⟩ := h
    exact ⟨hlive, href, receipt, hkept.market.receipt baoRoot receipt hreceipt, hsame⟩

omit [Carbonado] in
/-- A contract that has an invoice keeps its credential. -/
theorem invoice_ok {s : MarketState} {settings : SettlementSettings} {app : Except PaymentError Bool}
    {node : Except PaymentError InvoiceNode} {ledgerEnv : LedgerEnv} {baoRoot : Bytes32}
    {result : SettlementResult} (hkeyed : s.market.Keyed)
    (h : (s.invoice settings app node ledgerEnv baoRoot).1 = .ok result) :
    ∃ live, app = .ok live ∧ result.amountSats ≠ 0 ∧ (s.market.getContract baoRoot).isSome = true ∧
      Persisted (s.invoice settings app node ledgerEnv baoRoot).2 live baoRoot result := by
  unfold invoice createInvoiceForContract at h ⊢
  cases hprepare : prepareInvoice s.market settings (s.invoiceProviders app node) baoRoot with
  | error err =>
    rw [hprepare] at h
    cases h
  | ok request =>
    rw [hprepare] at h
    obtain ⟨-, hroot, hpurpose, hthreshold, hcontract, live, happ, hmicro⟩ := prepareInvoice_ok hprepare
    dsimp only at h ⊢
    rcases hcreate : request.coordinator.createInvoice request.providers.invoices
      request.providers.micro ledgerEnv request.binding with ⟨created, rail⟩
    rw [hcreate] at h
    cases created with
    | error err => cases h
    | ok created =>
      dsimp only at h ⊢
      cases hpersist : persistCredential s.market request.binding created with
      | error err =>
        rw [hpersist] at h
        cases h
      | ok market' =>
        rw [hpersist] at h
        cases h
        have hok : (request.coordinator.createInvoice request.providers.invoices
            request.providers.micro ledgerEnv request.binding).1 = .ok result := by rw [hcreate]
        obtain ⟨hpositive, hamount, hform⟩ := SettlementCoordinator.createInvoice_ok hok
        refine ⟨live, happ, hamount ▸ hpositive, hcontract, ?_⟩
        unfold Persisted
        rcases hform with ⟨hrail, hhash⟩ | ⟨hrail, href, ledger, hrail'⟩
        · rw [hrail]
          obtain ⟨hash, hhash⟩ := Option.isSome_iff_exists.mp hhash
          refine ⟨hash, hhash, ?_⟩
          rw [persistCredential, hrail, hhash, hroot] at hpersist
          exact (MarketStore.persistInvoiceHash_ok hkeyed hpersist).2
        · rw [hrail]
          have hlive : live = true := by
            rw [hmicro] at hrail'
            cases live with
            | false => cases hrail'
            | true => rfl
          have hbinding : request.binding = ⟨baoRoot, .storageContract, result.amountSats⟩ := by
            rw [hamount, ← hroot, ← hpurpose]
          rw [persistCredential, hrail] at hpersist
          obtain ⟨-, -, receipt, hreceipt, hsame⟩ := MarketStore.persistEcashReceipt_ok hkeyed hpersist
          rw [hroot] at hreceipt
          exact ⟨hlive, hbinding ▸ href, receipt, hreceipt, hsame⟩

omit [Carbonado] in
/-- What is persisted and made is paid. -/
theorem paid_of_made {s : MarketState} {live : Bool} {baoRoot : Bytes32} {result : SettlementResult}
    (hpersisted : Persisted s live baoRoot result) (hmade : Made s baoRoot result) :
    Paid s live baoRoot result.amountSats result.rail := by
  unfold Persisted at hpersisted
  unfold Made at hmade
  cases hrail : result.rail with
  | lightning =>
    rw [hrail] at hpersisted hmade
    obtain ⟨hash, hhash, contract, hcontract, hinvoice⟩ := hpersisted
    obtain ⟨payment, hmem, other, hother, hpays⟩ := hmade
    rw [hhash] at hother
    cases hother
    exact ⟨contract, hcontract, payment, hmem, hash, hpays, .inr hinvoice⟩
  | ecash =>
    rw [hrail] at hpersisted hmade
    obtain ⟨hlive, href, receipt, hreceipt, hsame⟩ := hpersisted
    exact ⟨hlive, receipt, hreceipt, hsame.trans href, hsame ▸ hmade⟩

omit [Carbonado] in
/-- An invoice of the ecash rail pays itself, when the ledger is read to its end and ends in a newline. -/
theorem made_of_ecash {s : MarketState} {settings : SettlementSettings} {app : Except PaymentError Bool}
    {node : Except PaymentError InvoiceNode} {ledgerEnv : LedgerEnv} {baoRoot : Bytes32}
    {result : SettlementResult} {binding : PaymentBinding} {found : Bool}
    (h : (s.invoice settings app node ledgerEnv baoRoot).1 = .ok result) (hrail : result.rail = .ecash)
    (hbinding : contractBinding s.market baoRoot settings = .ok binding)
    (hjson : JsonOf [binding.record (ecashBindingReference binding)])
    (hterminated : s.ledger.file.Terminated)
    (hfound : s.ledger.hasPayment binding (ecashBindingReference binding) = .ok found) :
    Made (s.invoice settings app node ledgerEnv baoRoot).2 baoRoot result := by
  unfold invoice createInvoiceForContract at h ⊢
  cases hprepare : prepareInvoice s.market settings (s.invoiceProviders app node) baoRoot with
  | error err =>
    rw [hprepare] at h
    cases h
  | ok request =>
    rw [hprepare] at h
    obtain ⟨hbinding', hroot, hpurpose, -, -, live, -, hmicro⟩ := prepareInvoice_ok hprepare
    obtain rfl : binding = request.binding := Except.ok.inj (hbinding.symm.trans hbinding')
    dsimp only at h ⊢
    rcases hcreate : request.coordinator.createInvoice request.providers.invoices
      request.providers.micro ledgerEnv request.binding with ⟨created, rail⟩
    rw [hcreate] at h
    cases created with
    | error err => cases h
    | ok created =>
      dsimp only at h ⊢
      cases hpersist : persistCredential s.market request.binding created with
      | error err =>
        rw [hpersist] at h
        cases h
      | ok market' =>
        rw [hpersist] at h
        cases h
        have hmicropay := SettlementCoordinator.createInvoice_ecash hcreate hrail
        have hok : (request.providers.micro.payMicro ledgerEnv request.binding).1 = .ok result := by
          rw [hmicropay]
        obtain ⟨hresult, ledger, hlive⟩ := MicroRail.payMicro_ok hok
        rw [hmicro] at hok hmicropay hlive
        cases live with
        | false => cases hlive
        | true =>
          obtain ⟨ledger', hledger, hpaid⟩ :=
            MicroRail.payMicro_hasPayment hjson hterminated hfound hok
          obtain rfl : rail = .live true (some ledger') := by
            rw [← hledger]
            exact (congrArg Prod.snd hmicropay).symm
          have hsame : (⟨baoRoot, .storageContract, result.amountSats⟩ : PaymentBinding) =
              request.binding := by
            rw [hresult, ← hroot, ← hpurpose]
          unfold Made
          rw [hrail]
          show ledger'.hasPayment ⟨baoRoot, .storageContract, result.amountSats⟩ result.reference = _
          rw [hsame]
          exact hpaid

theorem kept_run {s : MarketState} (h : s.market.Keyed) (calls : List Call) :
    Kept s (run exec s calls) := by
  induction calls generalizing s with
  | nil => exact .refl h
  | cons call calls ih =>
    have hfirst := kept_exec h call
    exact hfirst.trans (ih hfirst.market.keyed)

/-- A contract that is invoiced and paid settles behind any calls exactly when the settings and the prices
then give it the amount and the rail of its invoice, or another pair that it is paid with as well. -/
theorem settle_paid_iff {s : MarketState} (hkeyed : s.market.Keyed) {settings : SettlementSettings}
    {app : Except PaymentError Bool} {node : Except PaymentError InvoiceNode} {ledgerEnv : LedgerEnv}
    {baoRoot : Bytes32} {result : SettlementResult}
    (hinvoice : (s.invoice settings app node ledgerEnv baoRoot).1 = .ok result) (calls : List Call)
    (hmade : Made (run exec (s.invoice settings app node ledgerEnv baoRoot).2 calls) baoRoot result)
    (hproof : ((run exec (s.invoice settings app node ledgerEnv baoRoot).2 calls).market.getChallengeProof
      baoRoot).isSome = true) (env : ChallengeEnv) (later : SettlementSettings) :
    ((run exec (s.invoice settings app node ledgerEnv baoRoot).2 calls).settle env later app (.ok ())
        ⟨none⟩ baoRoot).1 = .ok () ↔
      AsInvoiced (run exec (s.invoice settings app node ledgerEnv baoRoot).2 calls) later baoRoot result ∨
      ∃ live, app = .ok live ∧
        PaidOtherwise (run exec (s.invoice settings app node ledgerEnv baoRoot).2 calls) live later baoRoot
          result := by
  obtain ⟨live, rfl, hpositive, hcontract, hpersisted⟩ := invoice_ok hkeyed hinvoice
  have hinvoiced := kept_invoice hkeyed settings (.ok live) node ledgerEnv baoRoot
  have hkept := kept_run hinvoiced.market.keyed calls
  have hpaid := paid_of_made (hpersisted.kept hkept) hmade
  rw [settle_iff hproof ((hinvoiced.trans hkept).market.contract baoRoot hcontract)]
  constructor
  · rintro ⟨hthreshold, amountSats, hamount, hnonzero, hnow⟩
    by_cases hsame : amountSats = result.amountSats ∧ railOf later amountSats = result.rail
    · obtain ⟨rfl, hrail⟩ := hsame
      exact .inl ⟨hthreshold, hamount, hrail⟩
    · exact .inr ⟨live, rfl, hthreshold, amountSats, hamount, hnonzero, not_and_or.mp hsame, hnow⟩
  · rintro (⟨hthreshold, hamount, hrail⟩ | ⟨_, hlive, hthreshold, amountSats, hamount, hnonzero, -, hnow⟩)
    · exact ⟨hthreshold, _, hamount, hpositive, hrail ▸ hpaid⟩
    · cases hlive
      exact ⟨hthreshold, amountSats, hamount, hnonzero, hnow⟩

end MarketState

/-! ### A price that changes -/

section

attribute [local instance] exampleCodec sampleJson

open MarketState

/-- A contract that passed its challenge. -/
def oneContract : MarketState where
  market := (MarketStore.empty.putContract ⟨exampleRoot, 1, .pub, false, 0, .active, none⟩
    ).putChallengeProof ⟨exampleRoot, 0, 8, 8⟩
  ledger := sampleLedger
  payments := []

/-- A node that gives every invoice the same hash. -/
def exampleNode : Except PaymentError InvoiceNode := .ok ⟨fun _ _ => .ok ⟨exampleInvoice, "lnbc"⟩⟩

/-- The contract is invoiced at ten thousand satoshis, and the invoice is paid. -/
def paidContract : MarketState :=
  run exec (oneContract.invoice ⟨1000, 10000⟩ (.ok false) exampleNode sampleEnv exampleRoot).2
    [.listed [⟨.bolt11 exampleInvoice, some 10000000, .inbound, .succeeded⟩]]

theorem keyed_oneContract : oneContract.market.Keyed := by
  have hempty : MarketStore.empty.Keyed := by
    intro baoRoot contract hcontract
    simp [MarketStore.empty, MarketStore.getContract] at hcontract
  exact (MarketStore.kept_putContract hempty fun old hold => by
    simp [MarketStore.empty, MarketStore.getContract] at hold).keyed

def exampleResult : SettlementResult := ⟨.lightning, 10000, "bolt11:lnbc", some exampleInvoice⟩

theorem invoiced_oneContract :
    (oneContract.invoice ⟨1000, 10000⟩ (.ok false) exampleNode sampleEnv exampleRoot).1 = .ok exampleResult := by
  decide +kernel

theorem made_paidContract : Made paidContract exampleRoot exampleResult :=
  ⟨⟨.bolt11 exampleInvoice, some 10000000, .inbound, .succeeded⟩, by decide +kernel, exampleInvoice, rfl,
    rfl, rfl, rfl, 10000000, rfl, rfl⟩

theorem settle_paid_example : (paidContract.settle ⟨exampleDir, keepOrder, .ok 0⟩ ⟨1000, 10000⟩
    (.ok false) (.ok ()) ⟨none⟩ exampleRoot).1 = .ok () :=
  (settle_paid_iff keyed_oneContract invoiced_oneContract _ made_paidContract (by decide +kernel) _ _).mpr
    (.inl ⟨by decide, by decide +kernel, rfl⟩)

/-- The contract does not settle once the default price is another one. -/
theorem not_settle_paid : oneContract.market.Keyed ∧
    (oneContract.invoice ⟨1000, 10000⟩ (.ok false) exampleNode sampleEnv exampleRoot).1 = .ok exampleResult ∧
    Made paidContract exampleRoot exampleResult ∧
    (paidContract.market.getChallengeProof exampleRoot).isSome = true ∧
    (paidContract.settle ⟨exampleDir, keepOrder, .ok 0⟩ ⟨1000, 20000⟩ (.ok false) (.ok ()) ⟨none⟩
      exampleRoot).1 ≠ .ok () :=
  ⟨keyed_oneContract, invoiced_oneContract, made_paidContract, by decide +kernel, by decide +kernel⟩

end

end Lord.Market
