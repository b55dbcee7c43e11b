import Lord.Lib.History
import Lord.Market.Node

/-! Runs of a node of the market.  Every record that the market holds is traced back to the call that
made it: a contract to a request while the commitment was timestamped, a challenge proof to a
challenge that verified the blob behind that request, a credential to an invoice. -/

namespace Lord.Market

open Storage Payments Ots Commit Runs History

/-! ### What the calls of the market write -/

theorem requestStorageContract_ok {market market' : MarketStore} {dir : DataDir}
    {mutualAidEnabled : Bool} {baoRoot : Bytes32} {options : RequestContractOptions}
    {createdAt : UInt64}
    (h : requestStorageContract market dir mutualAidEnabled baoRoot options createdAt = .ok market') :
    options.targetReplication ≠ 0 ∧ (options.mutualAidOnly = true → mutualAidEnabled = true) ∧
      (∃ row, dir.store.getCommitment baoRoot = some row ∧ row.isTimestamped = true ∧
        options.visibility.matchesFormat row.format = true) ∧
      market.getContract baoRoot = none ∧
      market' = market.putContract (newPendingContract baoRoot options createdAt) := by
  unfold requestStorageContract at h
  split at h
  · cases h
  rename_i htarget
  split at h
  · cases h
  rename_i haid
  obtain ⟨row, hrow, h⟩ := bind_eq_ok.mp h
  split at h
  · cases h
  rename_i hstamped
  split at h
  · cases h
  rename_i hformat
  split at h
  · cases h
  rename_i hnone
  cases h
  refine ⟨htarget, fun haidOnly => ?_, ⟨row, okOr_eq_ok.mp hrow, by simpa using hstamped,
    by simpa using hformat⟩, Option.not_isSome_iff_eq_none.mp hnone, rfl⟩
  simpa [haidOnly] using haid

theorem persistCredential_ok {market market' : MarketStore} {binding : PaymentBinding}
    {result : SettlementResult} (h : persistCredential market binding result = .ok market') :
    market' = market ∨
      (∃ hash contract, result.paymentHash = some hash ∧ result.rail = .lightning ∧
        market.getContract binding.baoRoot = some contract ∧ contract.invoiceHash = none ∧
        market' = market.putContract { contract with invoiceHash := some hash }) ∨
      (result.rail = .ecash ∧ market' = market.putEcashReceipt ⟨binding.baoRoot, result.reference⟩) := by
  unfold persistCredential at h
  split at h
  · rename_i hash hrail hhash
    obtain ⟨contract, hcontract, h⟩ := bind_eq_ok.mp h
    split at h
    · split at h
      · cases h
        exact .inl rfl
      · cases h
    · rename_i hnone
      cases h
      exact .inr (.inl ⟨hash, contract, hhash, hrail, okOr_eq_ok.mp hcontract, hnone, rfl⟩)
  · cases h
    exact .inl rfl
  · rename_i hrail
    unfold persistEcashReceipt at h
    split at h
    · cases h
    split at h
    · split at h
      · cases h
        exact .inl rfl
      · cases h
    · cases h
      exact .inr (.inr ⟨hrail, rfl⟩)

/-- An invoice persists a credential for its root, or leaves the market as it is. -/
theorem invoice_market [MicroPaymentJson] (s : MarketState) (settings : SettlementSettings)
    (app : Except PaymentError Bool) (node : Except PaymentError InvoiceNode) (ledgerEnv : LedgerEnv)
    (baoRoot : Bytes32) :
    (s.invoice settings app node ledgerEnv baoRoot).2.payments = s.payments ∧
      ((s.invoice settings app node ledgerEnv baoRoot).2.market = s.market ∨
        ∃ result binding, (s.invoice settings app node ledgerEnv baoRoot).1 = .ok result ∧
          binding.baoRoot = baoRoot ∧
          persistCredential s.market binding result =
            .ok (s.invoice settings app node ledgerEnv baoRoot).2.market) := by
  unfold MarketState.invoice createInvoiceForContract
  cases hprepare : prepareInvoice s.market settings (s.invoiceProviders app node) baoRoot with
  | error err => exact ⟨rfl, .inl rfl⟩
  | ok request =>
    obtain ⟨-, hroot, -⟩ := MarketState.prepareInvoice_ok hprepare
    dsimp only
    rcases request.coordinator.createInvoice request.providers.invoices request.providers.micro
      ledgerEnv request.binding with ⟨result, rail⟩
    cases result with
    | error err => exact ⟨rfl, .inl rfl⟩
    | ok result =>
      dsimp only
      cases hpersist : persistCredential s.market request.binding result with
      | error err => exact ⟨rfl, .inl rfl⟩
      | ok market' => exact ⟨rfl, .inr ⟨result, request.binding, rfl, hroot, hpersist⟩⟩

section

variable [Carbonado]

/-- A challenge proves a root that has a contract, or leaves the market as it is. -/
theorem challengeReplication_proof (market : MarketStore) (env : ChallengeEnv)
    (baoRootHex : String) (sampleRate : UInt32) :
    (challengeReplication market env baoRootHex sampleRate).2.2 = market ∨
      ∃ baoRoot codecCalls result verifiedAt, parseBaoRoot baoRootHex = .ok baoRoot ∧
        (market.getContract baoRoot).isSome = true ∧
        verifyCommitment env.rng env.dir baoRootHex ⟨sampleRate, none⟩ = (codecCalls, .ok result) ∧
        (challengeReplication market env baoRootHex sampleRate).2.2 =
          market.putChallengeProof ⟨baoRoot, verifiedAt, result.slicesVerified, sampleRate⟩ := by
  unfold challengeReplication
  split
  · exact .inl rfl
  split
  · exact .inl rfl
  rename_i baoRoot hroot
  split
  · exact .inl rfl
  rename_i contract hcontract
  split
  · exact .inl rfl
  rename_i codecCalls result hverify
  split
  · exact .inl rfl
  rename_i verifiedAt hnow
  exact .inr ⟨baoRoot, codecCalls, result, verifiedAt, hroot, by rw [hcontract]; rfl, hverify, rfl⟩

theorem challengeReplication_ok {market : MarketStore} {env : ChallengeEnv} {baoRootHex : String}
    {sampleRate : UInt32} {result : VerifyResult}
    (h : (challengeReplication market env baoRootHex sampleRate).2.1 = .ok result) :
    ∃ codecCalls, verifyCommitment env.rng env.dir baoRootHex ⟨sampleRate, none⟩ =
      (codecCalls, .ok result) := by
  unfold challengeReplication at h
  split at h
  · cases h
  split at h
  · cases h
  split at h
  · cases h
  split at h
  · cases h
  rename_i codecCalls localVerify hverify
  split at h
  · cases h
  · cases h
    exact ⟨codecCalls, hverify⟩

/-- The gate runs the inline challenge, when there is one. -/
theorem ensureBaoChallengeGate_challenge (market : MarketStore) (env : ChallengeEnv)
    (baoRoot : Bytes32) (options : SettleContractOptions) :
    (ensureBaoChallengeGate market env baoRoot options).2 = market ∨
      ∃ sampleRate, options.inlineSampleRate = some sampleRate ∧
        (ensureBaoChallengeGate market env baoRoot options).2 =
          (challengeReplication market env (Hex.encode baoRoot.val) sampleRate).2.2 := by
  unfold ensureBaoChallengeGate
  split
  · exact .inl rfl
  split
  · rename_i sampleRate hrate
    refine .inr ⟨sampleRate, hrate, ?_⟩
    rcases hrun : challengeReplication market env (Hex.encode baoRoot.val) sampleRate with
      ⟨calls, result, market'⟩
    cases result <;> simp only [hrun]
  · split <;> exact .inl rfl

/-- What is behind a gate that is passed. -/
theorem ensureBaoChallengeGate_ok {market : MarketStore} {env : ChallengeEnv} {baoRoot : Bytes32}
    {options : SettleContractOptions}
    (h : (ensureBaoChallengeGate market env baoRoot options).1 = .ok ()) :
    match options.inlineSampleRate with
    | none => (market.getChallengeProof baoRoot).isSome = true
    | some sampleRate => ∃ codecCalls result, verifyCommitment env.rng env.dir
        (Hex.encode baoRoot.val) ⟨sampleRate, none⟩ = (codecCalls, .ok result) := by
  unfold ensureBaoChallengeGate at h
  split at h
  · cases h
  split at h
  · rename_i sampleRate hrate
    rw [hrate]
    rcases hrun : challengeReplication market env (Hex.encode baoRoot.val) sampleRate with
      ⟨calls, result, market'⟩
    simp only [hrun] at h
    cases result with
    | error err => cases h
    | ok result =>
      have hok : (challengeReplication market env (Hex.encode baoRoot.val) sampleRate).2.1 =
          .ok result := by rw [hrun]
      obtain ⟨codecCalls, hverify⟩ := challengeReplication_ok hok
      exact ⟨codecCalls, result, hverify⟩
  · rename_i hrate
    rw [hrate]
    split at h
    · assumption
    · cases h

theorem settleStorageContract_challenge [MicroPaymentJson] (market : MarketStore) (env : ChallengeEnv)
    (settings : SettlementSettings) (providers : Except PaymentError Providers)
    (options : SettleContractOptions) (baoRoot : Bytes32) :
    (settleStorageContract market env settings providers options baoRoot).2 = market ∨
      ∃ sampleRate, options.inlineSampleRate = some sampleRate ∧
        (settleStorageContract market env settings providers options baoRoot).2 =
          (challengeReplication market env (Hex.encode baoRoot.val) sampleRate).2.2 := by
  have hprepare : (prepareSettlement market env settings providers options baoRoot).2 = market ∨
      ∃ sampleRate, options.inlineSampleRate = some sampleRate ∧
        (prepareSettlement market env settings providers options baoRoot).2 =
          (challengeReplication market env (Hex.encode baoRoot.val) sampleRate).2.2 := by
    unfold prepareSettlement
    split
    · exact .inl rfl
    split
    · exact .inl rfl
    have hgate := ensureBaoChallengeGate_challenge market env baoRoot options
    rcases hrun : ensureBaoChallengeGate market env baoRoot options with ⟨result, market'⟩
    rw [hrun] at hgate
    cases result <;> exact hgate
  unfold settleStorageContract
  rcases hrun : prepareSettlement market env settings providers options baoRoot with
    ⟨result, market'⟩
  rw [hrun] at hprepare
  cases result <;> exact hprepare

theorem settleStorageContract_gate [MicroPaymentJson] {market : MarketStore} {env : ChallengeEnv}
    {settings : SettlementSettings} {providers : Except PaymentError Providers}
    {options : SettleContractOptions} {baoRoot : Bytes32}
    (h : (settleStorageContract market env settings providers options baoRoot).1 = .ok ()) :
    (market.getContract baoRoot).isSome = true ∧
      (ensureBaoChallengeGate market env baoRoot options).1 = .ok () := by
  unfold settleStorageContract at h
  rcases hrun : prepareSettlement market env settings providers options baoRoot with
    ⟨result, market'⟩
  rw [hrun] at h
  cases result with
  | error err => cases h
  | ok settlement =>
    have hok : (prepareSettlement market env settings providers options baoRoot).1 =
        .ok settlement := by rw [hrun]
    obtain ⟨contract, live, loaded⟩ := prepareSettlement_loaded hok
    exact ⟨by rw [loaded.contract_eq]; rfl, prepareSettlement_gate hok⟩

end

/-! ### One call of a node -/

/-- The challenge that a call runs. -/
def NodeCall.runsChallenge (call : NodeCall) (rng : Shuffle) (baoRootHex : String)
    (sampleRate : UInt32) : Prop :=
  match call with
  | .challenge rng' _ baoRootHex' sampleRate' =>
    rng' = rng ∧ baoRootHex' = baoRootHex ∧ sampleRate' = sampleRate
  | .settle rng' _ _ _ _ options baoRoot =>
    rng' = rng ∧ Hex.encode baoRoot.val = baoRootHex ∧ options.inlineSampleRate = some sampleRate
  | _ => False

namespace Node

/-- What a request checks of a node before it writes the contract. -/
structure Admits (n : Node) (settings : MarketSettings) (baoRoot : Bytes32)
    (options : RequestContractOptions) : Prop where
  target : options.targetReplication ≠ 0
  mutualAid : options.mutualAidOnly = true → settings.mutualAidEnabled = true
  stamped : ∃ row, n.dir.store.getCommitment baoRoot = some row ∧ row.isTimestamped = true ∧
    options.visibility.matchesFormat row.format = true
  unknown : n.getContract baoRoot = none

def withMarket (n : Node) (market : MarketStore) (ledger : MicroPaymentLedger) : Node :=
  { n with state := { n.state with market, ledger } }

variable [Carbonado] [Digests] [OtsCodec] [MicroPaymentJson]

/-- What a call does to a node. -/
inductive Step (n : Node) : NodeCall → Node → Prop where
  | store (call : StoreCall) : Step n (.store call) { n with dir := call.exec n.dir }
  | contract {settings : MarketSettings} {baoRoot : Bytes32} {options : RequestContractOptions}
      {createdAt : UInt64} (hadmits : n.Admits settings baoRoot options) :
      Step n (.request settings baoRoot options createdAt)
        { n.withMarket (n.state.market.putContract (newPendingContract baoRoot options createdAt))
            n.state.ledger with
          replication := initializeReplicationState n.replication baoRoot }
  | offer {settings : MarketSettings} {options : PublishOfferOptions} {newOfferId : Result OfferId}
      {createdAt : UInt64} {offer : ProviderOffer} {offers : Table ProviderOffer}
      (hpublish : publishProviderOffer n.offers settings options newOfferId createdAt =
        .ok (offer, offers)) :
      Step n (.publishOffer settings options newOfferId createdAt) { n with offers }
  | proof {call : NodeCall} {rng : Shuffle} {baoRootHex : String} {sampleRate : UInt32}
      {baoRoot : Bytes32} {codecCalls : List CodecCall} {result : VerifyResult}
      {verifiedAt : UInt64} (hcall : call.runsChallenge rng baoRootHex sampleRate)
      (hroot : parseBaoRoot baoRootHex = .ok baoRoot) (hcontract : (n.getContract baoRoot).isSome = true)
      (hverify : verifyCommitment rng n.dir baoRootHex ⟨sampleRate, none⟩ = (codecCalls, .ok result)) :
      Step n call (n.withMarket (n.state.market.putChallengeProof
        ⟨baoRoot, verifiedAt, result.slicesVerified, sampleRate⟩) n.state.ledger)
  | hash {settings : SettlementSettings} {app : Except PaymentError Bool}
      {node : Except PaymentError InvoiceNode} {ledgerEnv : LedgerEnv} {baoRoot hash : Bytes32}
      {result : SettlementResult}
      {contract : StorageContract} {ledger : MicroPaymentLedger}
      (hresult : (n.state.invoice settings app node ledgerEnv baoRoot).1 = .ok result)
      (hrail : result.rail = .lightning) (hhash : result.paymentHash = some hash)
      (hcontract : n.getContract baoRoot = some contract) (hnone : contract.invoiceHash = none) :
      Step n (.invoice settings app node ledgerEnv baoRoot)
        (n.withMarket (n.state.market.putContract { contract with invoiceHash := some hash }) ledger)
  | receipt {settings : SettlementSettings} {app : Except PaymentError Bool}
      {node : Except PaymentError InvoiceNode} {ledgerEnv : LedgerEnv} {baoRoot : Bytes32}
      {result : SettlementResult}
      {ledger : MicroPaymentLedger}
      (hresult : (n.state.invoice settings app node ledgerEnv baoRoot).1 = .ok result)
      (hrail : result.rail = .ecash) :
      Step n (.invoice settings app node ledgerEnv baoRoot)
        (n.withMarket (n.state.market.putEcashReceipt ⟨baoRoot, result.reference⟩) ledger)
  /-- Prices, the ledger and the payments of the Lightning node. -/
  | other {call : NodeCall} {market : MarketStore} {ledger : MicroPaymentLedger}
      {payments : List PaymentDetails} (hcontracts : market.contracts = n.state.market.contracts)
      (hproofs : market.challengeProofs = n.state.market.challengeProofs)
      (hreceipts : market.ecashReceipts = n.state.market.ecashReceipts) :
      Step n call { n with state := ⟨market, ledger, payments⟩ }

/-- A challenge of a call. -/
theorem step_challenge (n : Node) {call : NodeCall} {rng : Shuffle} (now : Result UInt64)
    {baoRootHex : String} {sampleRate : UInt32}
    (hcall : call.runsChallenge rng baoRootHex sampleRate) :
    Step n call (n.withMarket (challengeReplication n.state.market ⟨n.dir, rng, now⟩ baoRootHex
      sampleRate).2.2 n.state.ledger) := by
  rcases challengeReplication_proof n.state.market ⟨n.dir, rng, now⟩ baoRootHex sampleRate with
    hsame | ⟨baoRoot, codecCalls, result, verifiedAt, hroot, hcontract, hverify, hsame⟩
  · rw [hsame]
    exact .other rfl rfl rfl
  · rw [hsame]
    exact .proof hcall hroot hcontract hverify

theorem step_invoice (n : Node) (settings : SettlementSettings) (app : Except PaymentError Bool)
    (node : Except PaymentError InvoiceNode) (ledgerEnv : LedgerEnv) (baoRoot : Bytes32) :
    Step n (.invoice settings app node ledgerEnv baoRoot)
      { n with state := (n.state.invoice settings app node ledgerEnv baoRoot).2 } := by
  obtain ⟨hpayments, hmarket⟩ := invoice_market n.state settings app node ledgerEnv baoRoot
  rcases hrun : n.state.invoice settings app node ledgerEnv baoRoot with ⟨outcome, market, ledger, payments⟩
  rw [hrun] at hpayments hmarket
  obtain rfl : payments = n.state.payments := hpayments
  rcases hmarket with hsame | ⟨result, binding, hresult, hroot, hpersist⟩
  · obtain rfl : market = n.state.market := hsame
    exact .other rfl rfl rfl
  have hinvoice : (n.state.invoice settings app node ledgerEnv baoRoot).1 = .ok result := by
    rw [hrun]
    exact hresult
  rcases persistCredential_ok hpersist with hsame |
    ⟨hash, contract, hhash, hrail, hcontract, hnone, hsame⟩ | ⟨hrail, hsame⟩
  · obtain rfl : market = n.state.market := hsame
    exact .other rfl rfl rfl
  · obtain rfl : market = _ := hsame
    rw [hroot] at hcontract
    exact .hash hinvoice hrail hhash hcontract hnone
  · obtain rfl : market = _ := hsame
    rw [hroot]
    exact .receipt hinvoice hrail

/-- Every call takes a step. -/
theorem exec_step (n : Node) (call : NodeCall) : Step n call (n.exec call) := by
  cases call with
  | store call => exact .store call
  | request settings baoRoot options createdAt =>
    change Step n _ (n.requestStorageContract settings baoRoot options createdAt).2
    unfold requestStorageContract
    split
    · exact .other rfl rfl rfl
    · rename_i market hrequest
      obtain ⟨htarget, haid, hstamped, hnone, rfl⟩ := requestStorageContract_ok hrequest
      dsimp only
      split <;> exact .contract ⟨htarget, haid, hstamped, hnone⟩
  | publishOffer settings options newOfferId createdAt =>
    simp only [exec]
    split
    · exact .other rfl rfl rfl
    · rename_i hpublish
      exact .offer hpublish
  | price pricing =>
    simp only [exec, MarketState.exec]
    split
    · rename_i market hprice
      unfold putContractPricing at hprice
      split at hprice
      · cases hprice
      · cases hprice
        exact .other rfl rfl rfl
    · exact .other rfl rfl rfl
  | challenge rng now baoRootHex sampleRate => exact step_challenge n now ⟨rfl, rfl, rfl⟩
  | invoice settings app node ledgerEnv baoRoot => exact step_invoice n settings app node ledgerEnv baoRoot
  | settle rng now settings app node options baoRoot =>
    have hmarket := settleStorageContract_challenge n.state.market ⟨n.dir, rng, now⟩ settings
      (n.state.providers app node) options baoRoot
    simp only [exec, MarketState.exec, MarketState.settle]
    rcases hmarket with hsame | ⟨sampleRate, hrate, hsame⟩
    · rw [hsame]
      exact .other rfl rfl rfl
    · rw [hsame]
      exact step_challenge n now ⟨rfl, rfl, hrate⟩
  | challengeFee thresholdSats challengeFeeSats app node baoRoot => exact .other rfl rfl rfl
  | listed payments => exact .other rfl rfl rfl

end Node

/-! ### Traces -/

section

variable [Carbonado] [Digests] [OtsCodec] [MicroPaymentJson] (start : Node)

/-- The call is the request of the contract, of which the invoice hash may have been set since. -/
def Requests (contract : StorageContract) (front : List NodeCall) (call : NodeCall) : Prop :=
  ∃ settings options, call = .request settings contract.baoRoot options contract.createdAt ∧
    (run Node.exec start front).Admits settings contract.baoRoot options ∧
    { contract with invoiceHash := none } =
      newPendingContract contract.baoRoot options contract.createdAt

/-- A contract for the root has been requested. -/
def Requested (baoRoot : Bytes32) (calls : List NodeCall) : Prop :=
  ∃ contract : StorageContract, contract.baoRoot = baoRoot ∧ Occurs (Requests start contract) calls

/-- The call is a challenge that verified the blob of the proof, for a contract that had been
requested. -/
def Proves (proof : ChallengeProof) (front : List NodeCall) (call : NodeCall) : Prop :=
  Requested start proof.baoRoot front ∧
    ∃ rng baoRootHex codecCalls result, call.runsChallenge rng baoRootHex proof.sampleRate ∧
      parseBaoRoot baoRootHex = .ok proof.baoRoot ∧
      verifyCommitment rng (run Node.exec start front).dir baoRootHex ⟨proof.sampleRate, none⟩ =
        (codecCalls, .ok result) ∧ result.slicesVerified = proof.slicesVerified

/-- The call made an invoice with this credential, for a contract that had been requested. -/
def Invoices (baoRoot : Bytes32) (credential : SettlementResult → Prop) (front : List NodeCall)
    (call : NodeCall) : Prop :=
  Requested start baoRoot front ∧
    ∃ settings app node ledgerEnv result, call = .invoice settings app node ledgerEnv baoRoot ∧
      ((run Node.exec start front).state.invoice settings app node ledgerEnv baoRoot).1 = .ok result ∧
      credential result

/-- The call published the offer. -/
def Publishes (offer : ProviderOffer) (front : List NodeCall) (call : NodeCall) : Prop :=
  ∃ settings options newOfferId createdAt offers,
    call = .publishOffer settings options newOfferId createdAt ∧
      publishProviderOffer (run Node.exec start front).offers settings options newOfferId createdAt =
        .ok (offer, offers)

/-- The records of a node are those that the calls behind it made. -/
structure Traced (calls : List NodeCall) (n : Node) : Prop where
  contract : ∀ baoRoot contract, n.getContract baoRoot = some contract →
    contract.baoRoot = baoRoot ∧ Occurs (Requests start contract) calls
  hash : ∀ baoRoot contract hash, n.getContract baoRoot = some contract →
    contract.invoiceHash = some hash →
    Occurs (Invoices start baoRoot fun result =>
      result.rail = .lightning ∧ result.paymentHash = some hash) calls
  proof : ∀ baoRoot proof, n.state.market.getChallengeProof baoRoot = some proof →
    proof.baoRoot = baoRoot ∧ Occurs (Proves start proof) calls
  receipt : ∀ baoRoot receipt, n.state.market.getEcashReceipt baoRoot = some receipt →
    receipt.baoRoot = baoRoot ∧ Occurs (Invoices start baoRoot fun result =>
      result.rail = .ecash ∧ result.reference = receipt.reference) calls
  offer : ∀ key offer, n.offers[key]? = some offer →
    key = encodeOfferKey offer.marketNamespace offer.offerId ∧ Occurs (Publishes start offer) calls
  replication : ∀ baoRoot, n.getReplicationState baoRoot =
    if (n.getContract baoRoot).isSome then some ⟨baoRoot, 0, []⟩ else none
  row : ∀ baoRoot, (n.getContract baoRoot).isSome = true →
    (n.dir.store.getCommitment baoRoot).isSome = true

variable {start} {calls : List NodeCall} {call : NodeCall} {n n' : Node}

theorem Requested.append {baoRoot : Bytes32} (h : Requested start baoRoot calls) (call : NodeCall) :
    Requested start baoRoot (calls ++ [call]) := by
  obtain ⟨contract, hroot, hrequest⟩ := h
  exact ⟨contract, hroot, hrequest.append call⟩

theorem Traced.requested (h : Traced start calls n) {baoRoot : Bytes32}
    (hcontract : (n.getContract baoRoot).isSome = true) : Requested start baoRoot calls := by
  obtain ⟨contract, hcontract⟩ := Option.isSome_iff_exists.mp hcontract
  exact ⟨contract, h.contract baoRoot contract hcontract⟩

theorem Traced.keyed (h : Traced start calls n) : n.state.market.Keyed :=
  fun baoRoot contract hcontract => (h.contract baoRoot contract hcontract).1

/-- A call that writes none of the records. -/
theorem Traced.append (h : Traced start calls n) (call : NodeCall) :
    Traced start (calls ++ [call]) n where
  contract baoRoot contract hcontract :=
    ⟨(h.contract baoRoot contract hcontract).1, (h.contract baoRoot contract hcontract).2.append call⟩
  hash baoRoot contract hash hcontract hhash := (h.hash baoRoot contract hash hcontract hhash).append call
  proof baoRoot proof hproof :=
    ⟨(h.proof baoRoot proof hproof).1, (h.proof baoRoot proof hproof).2.append call⟩
  receipt baoRoot receipt hreceipt :=
    ⟨(h.receipt baoRoot receipt hreceipt).1, (h.receipt baoRoot receipt hreceipt).2.append call⟩
  offer key offer hoffer := ⟨(h.offer key offer hoffer).1, (h.offer key offer hoffer).2.append call⟩
  replication := h.replication
  row := h.row

omit [Carbonado] [Digests] [OtsCodec] [MicroPaymentJson] in
theorem getChallengeProof_putChallengeProof (market : MarketStore) (proof : ChallengeProof)
    (baoRoot : Bytes32) : (market.putChallengeProof proof).getChallengeProof baoRoot =
      if proof.baoRoot = baoRoot then some proof else market.getChallengeProof baoRoot := by
  simp only [MarketStore.getChallengeProof, MarketStore.putChallengeProof,
    Std.ExtTreeMap.getElem?_insert, Std.LawfulEqCmp.compare_eq_iff_eq, Subtype.ext_iff]

omit [Carbonado] [Digests] [OtsCodec] [MicroPaymentJson] in
theorem getElem?_initializeReplicationState (replication : Table ReplicationState)
    (baoRoot r : Bytes32) (hnone : replication[baoRoot.val]? = none) :
    (initializeReplicationState replication baoRoot)[r.val]? =
      if baoRoot = r then some ⟨baoRoot, 0, []⟩ else replication[r.val]? := by
  simp only [initializeReplicationState, hnone, Option.isSome_none, Bool.false_eq_true, if_false,
    Std.ExtTreeMap.getElem?_insert, Std.LawfulEqCmp.compare_eq_iff_eq, Subtype.ext_iff]

omit [Carbonado] [Digests] [OtsCodec] [MicroPaymentJson] in
theorem Node.getContract_withMarket (n : Node) (contract : StorageContract)
    (ledger : MicroPaymentLedger) (baoRoot : Bytes32) :
    (n.withMarket (n.state.market.putContract contract) ledger).getContract baoRoot =
      if contract.baoRoot = baoRoot then some contract else n.getContract baoRoot :=
  MarketStore.getContract_putContract contract baoRoot

theorem Traced.request (h : Traced start calls n) (hn : n = run Node.exec start calls)
    {settings : MarketSettings} {baoRoot : Bytes32} {options : RequestContractOptions}
    {createdAt : UInt64} (hadmits : n.Admits settings baoRoot options) :
    Traced start (calls ++ [.request settings baoRoot options createdAt])
      { n.withMarket (n.state.market.putContract (newPendingContract baoRoot options createdAt))
          n.state.ledger with
        replication := initializeReplicationState n.replication baoRoot } := by
  have hkept := h.append (.request settings baoRoot options createdAt)
  have hget := n.getContract_withMarket (newPendingContract baoRoot options createdAt) n.state.ledger
  have hnew : Occurs (Requests start (newPendingContract baoRoot options createdAt))
      (calls ++ [.request settings baoRoot options createdAt]) :=
    .last ⟨settings, options, rfl, hn ▸ hadmits, rfl⟩
  have hnone : n.replication[baoRoot.val]? = none := by
    have hreplication := h.replication baoRoot
    rw [hadmits.unknown] at hreplication
    exact hreplication
  refine { hkept with contract := ?_, hash := ?_, replication := ?_, row := ?_ }
  · intro r contract hcontract
    change (n.withMarket _ _).getContract r = _ at hcontract
    rw [hget] at hcontract
    split at hcontract
    · rename_i hroot
      cases hcontract
      exact ⟨hroot, hnew⟩
    · exact hkept.contract r contract hcontract
  · intro r contract hash hcontract hhash
    change (n.withMarket _ _).getContract r = _ at hcontract
    rw [hget] at hcontract
    split at hcontract
    · cases hcontract
      cases hhash
    · exact hkept.hash r contract hash hcontract hhash
  · intro r
    change (initializeReplicationState n.replication baoRoot)[r.val]? =
      if ((n.withMarket _ _).getContract r).isSome then _ else _
    rw [getElem?_initializeReplicationState _ _ _ hnone, hget]
    change (if baoRoot = r then _ else _) = if (if baoRoot = r then _ else _ : Option _).isSome then _ else _
    split
    · rename_i hroot
      rw [hroot]
      rfl
    · exact h.replication r
  · intro r hcontract
    change ((n.withMarket _ _).getContract r).isSome = true at hcontract
    rw [hget] at hcontract
    split at hcontract
    · rename_i hroot
      obtain ⟨row, hrow, -⟩ := hadmits.stamped
      change (n.dir.store.getCommitment r).isSome = true
      rw [← show baoRoot = r from hroot, hrow]
      rfl
    · exact h.row r hcontract

theorem Traced.invoice_hash (h : Traced start calls n) (hn : n = run Node.exec start calls)
    {settings : SettlementSettings} {app : Except PaymentError Bool}
    {node : Except PaymentError InvoiceNode} {ledgerEnv : LedgerEnv} {baoRoot hash : Bytes32}
    {result : SettlementResult} {contract : StorageContract} {ledger : MicroPaymentLedger}
    (hresult : (n.state.invoice settings app node ledgerEnv baoRoot).1 = .ok result)
    (hrail : result.rail = .lightning) (hhash : result.paymentHash = some hash)
    (hcontract : n.getContract baoRoot = some contract) :
    Traced start (calls ++ [.invoice settings app node ledgerEnv baoRoot])
      (n.withMarket (n.state.market.putContract { contract with invoiceHash := some hash })
        ledger) := by
  have hkept := h.append (.invoice settings app node ledgerEnv baoRoot)
  have hget := n.getContract_withMarket { contract with invoiceHash := some hash } ledger
  obtain ⟨hroot, hrequest⟩ := hkept.contract baoRoot contract hcontract
  have hsome : ∀ r, ((n.withMarket (n.state.market.putContract
      { contract with invoiceHash := some hash }) ledger).getContract r).isSome =
        (n.getContract r).isSome := by
    intro r
    rw [hget]
    split
    · rename_i hr
      rw [← show contract.baoRoot = r from hr, hroot, hcontract]
      rfl
    · rfl
  refine { hkept with contract := ?_, hash := ?_, replication := ?_, row := ?_ }
  · intro r other hother
    rw [hget] at hother
    split at hother
    · rename_i hr
      cases hother
      exact ⟨hr, hrequest⟩
    · exact hkept.contract r other hother
  · intro r other hash' hother hhash'
    rw [hget] at hother
    split at hother
    · rename_i hr
      cases hother
      cases hhash'
      obtain rfl : baoRoot = r := hroot.symm.trans hr
      exact .last ⟨h.requested (by rw [hcontract]; rfl), settings, app, node, ledgerEnv, result, rfl,
        hn ▸ hresult, hrail, hhash⟩
    · exact hkept.hash r other hash' hother hhash'
  · intro r
    rw [hsome]
    exact h.replication r
  · intro r hr
    rw [hsome] at hr
    exact h.row r hr

theorem Traced.step (h : Traced start calls n) (hn : n = run Node.exec start calls)
    (hstep : n.Step call n') : Traced start (calls ++ [call]) n' := by
  have hkept := h.append call
  cases hstep with
  | store storeCall =>
    exact { hkept with row := fun r hr => storeCall.exec_isSome n.dir (h.row r hr) }
  | contract hadmits => exact h.request hn hadmits
  | @offer settings options newOfferId createdAt offer offers hpublish =>
    refine { hkept with offer := fun key other hother => ?_ }
    have hpublished : Occurs (Publishes start offer) (calls ++ [_]) :=
      .last ⟨settings, options, newOfferId, createdAt, offers, rfl, hn ▸ hpublish⟩
    obtain ⟨-, -, rfl⟩ := publishProviderOffer_ok hpublish
    rw [Std.ExtTreeMap.getElem?_insert] at hother
    split at hother
    · rename_i hkey
      cases hother
      exact ⟨(Std.LawfulEqCmp.compare_eq_iff_eq.mp hkey).symm, hpublished⟩
    · exact hkept.offer key other hother
  | @proof _ rng baoRootHex sampleRate baoRoot codecCalls result verifiedAt hcall hroot hcontract
      hverify =>
    refine { hkept with proof := fun r proof hproof => ?_ }
    change (n.state.market.putChallengeProof _).getChallengeProof r = _ at hproof
    rw [getChallengeProof_putChallengeProof] at hproof
    split at hproof
    · rename_i hr
      cases hproof
      exact ⟨hr, .last ⟨h.requested hcontract, rng, baoRootHex, codecCalls, result, hcall, hroot,
        hn ▸ hverify, rfl⟩⟩
    · exact hkept.proof r proof hproof
  | hash hresult hrail hhash hcontract => exact h.invoice_hash hn hresult hrail hhash hcontract
  | @receipt settings app node ledgerEnv baoRoot result ledger hresult hrail =>
    refine { hkept with receipt := fun r receipt hreceipt => ?_ }
    change (n.state.market.putEcashReceipt _).getEcashReceipt r = _ at hreceipt
    rw [MarketStore.getEcashReceipt_putEcashReceipt] at hreceipt
    split at hreceipt
    · rename_i hr
      cases hreceipt
      obtain rfl : baoRoot = r := hr
      obtain ⟨-, -, -, hcontract, -⟩ := MarketState.invoice_ok h.keyed hresult
      exact ⟨rfl, .last ⟨h.requested hcontract, settings, app, node, ledgerEnv, result, rfl,
        hn ▸ hresult, hrail, rfl⟩⟩
    · exact hkept.receipt r receipt hreceipt
  | @other _ market ledger payments hcontracts hproofs hreceipts =>
    obtain ⟨contracts, challengeProofs, ecashReceipts, contractPricing⟩ := market
    obtain rfl : contracts = n.state.market.contracts := hcontracts
    obtain rfl : challengeProofs = n.state.market.challengeProofs := hproofs
    obtain rfl : ecashReceipts = n.state.market.ecashReceipts := hreceipts
    exact { hkept with }

/-! ### Runs -/

omit [Carbonado] [Digests] [OtsCodec] [MicroPaymentJson] in
theorem getContract_fresh (dir : DataDir) (ledger : MicroPaymentLedger)
    (payments : List PaymentDetails) (baoRoot : Bytes32) :
    (Node.fresh dir ledger payments).getContract baoRoot = none := by
  simp [Node.fresh, Node.getContract, MarketStore.getContract, MarketStore.empty]

theorem traced_fresh (dir : DataDir) (ledger : MicroPaymentLedger)
    (payments : List PaymentDetails) : Traced start [] (Node.fresh dir ledger payments) := by
  have hcontract := getContract_fresh dir ledger payments
  have hproof : ∀ r, (Node.fresh dir ledger payments).state.market.getChallengeProof r = none :=
    fun r => by simp [Node.fresh, MarketStore.getChallengeProof, MarketStore.empty]
  have hreceipt : ∀ r, (Node.fresh dir ledger payments).state.market.getEcashReceipt r = none :=
    fun r => by simp [Node.fresh, MarketStore.getEcashReceipt, MarketStore.empty]
  constructor
  · intro r contract h
    rw [hcontract] at h
    cases h
  · intro r contract hash h
    rw [hcontract] at h
    cases h
  · intro r proof h
    rw [hproof] at h
    cases h
  · intro r receipt h
    rw [hreceipt] at h
    cases h
  · intro key offer h
    simp [Node.fresh] at h
  · intro r
    rw [hcontract]
    simp [Node.fresh, Node.getReplicationState]
  · intro r h
    rw [hcontract] at h
    cases h

theorem traced_run (dir : DataDir) (ledger : MicroPaymentLedger) (payments : List PaymentDetails)
    (calls : List NodeCall) : Traced (Node.fresh dir ledger payments) calls
      (run Node.exec (Node.fresh dir ledger payments) calls) :=
  run_induction (traced_fresh dir ledger payments)
    (fun _ call h => h.step rfl (Node.exec_step _ call)) calls

/-- No call takes a contract away. -/
theorem Node.Step.contract_isSome (h : n.Step call n') {baoRoot : Bytes32}
    (hsome : (n.getContract baoRoot).isSome = true) : (n'.getContract baoRoot).isSome = true := by
  have hput : ∀ contract : StorageContract,
      ((n.state.market.putContract contract).getContract baoRoot).isSome = true := by
    intro contract
    rw [MarketStore.getContract_putContract]
    split
    · rfl
    · exact hsome
  cases h with
  | store => exact hsome
  | contract => exact hput _
  | offer => exact hsome
  | proof => exact hsome
  | hash => exact hput _
  | receipt => exact hsome
  | other hcontracts =>
    unfold Node.getContract MarketStore.getContract
    dsimp only
    rw [hcontracts]
    exact hsome

/-- A request that is admitted writes its contract. -/
theorem getContract_of_requests {contract : StorageContract}
    (h : Requests start contract calls call) :
    ((run Node.exec start (calls ++ [call])).getContract contract.baoRoot).isSome = true := by
  obtain ⟨settings, options, rfl, hadmits, -⟩ := h
  obtain ⟨row, hrow, hstamped, hformat⟩ := hadmits.stamped
  have haid : ¬(options.mutualAidOnly && !settings.mutualAidEnabled) = true := by
    have := hadmits.mutualAid
    simpa using this
  have hnone : ¬(((run Node.exec start calls).state.market.getContract
      contract.baoRoot).isSome = true) := by
    rw [show MarketStore.getContract _ _ = none from hadmits.unknown]
    exact Bool.false_ne_true
  have hrequest : requestStorageContract (run Node.exec start calls).state.market
      (run Node.exec start calls).dir settings.mutualAidEnabled contract.baoRoot options
      contract.createdAt = .ok ((run Node.exec start calls).state.market.putContract
        (newPendingContract contract.baoRoot options contract.createdAt)) := by
    rw [requestStorageContract, if_neg hadmits.target, if_neg haid]
    refine bind_eq_ok.mpr ⟨row, okOr_eq_ok.mpr hrow, ?_⟩
    rw [if_neg (by simp [hstamped]), if_neg (by simp [hformat]), if_neg hnone]
  rw [run_append]
  change ((Node.requestStorageContract _ settings contract.baoRoot options
    contract.createdAt).2.getContract contract.baoRoot).isSome = true
  have hput : ((MarketStore.putContract (run Node.exec start calls).state.market
      (newPendingContract contract.baoRoot options contract.createdAt)).getContract
        contract.baoRoot).isSome = true := by
    rw [MarketStore.getContract_putContract]
    exact Option.isSome_of_eq_some (if_pos rfl)
  unfold Node.requestStorageContract
  rw [hrequest]
  dsimp only
  split <;> exact hput

theorem getContract_of_requested {baoRoot : Bytes32} (h : Requested start baoRoot calls) :
    ((run Node.exec start calls).getContract baoRoot).isSome = true := by
  obtain ⟨contract, rfl, h⟩ := h
  induction calls using List.reverseRecOn with
  | nil => exact absurd h not_occurs_nil
  | append_singleton front call ih =>
    rcases occurs_append_singleton.mp h with hfront | hlast
    · rw [run_append]
      exact (Node.exec_step _ call).contract_isSome (ih hfront)
    · exact getContract_of_requests hlast

/-- A root is requested once. -/
theorem requests_once {contract contract' : StorageContract} {front front' : List NodeCall}
    {call' : NodeCall} (hwithin : front ++ [call] <+: calls) (hwithin' : front' ++ [call'] <+: calls)
    (h : Requests start contract front call) (h' : Requests start contract' front' call')
    (hroot : contract'.baoRoot = contract.baoRoot) : front' = front := by
  have hnot : ∀ front call,
      (∃ other : StorageContract, other.baoRoot = contract.baoRoot ∧
        Requests start other front call) →
      ¬Occurs (fun front call => ∃ other : StorageContract, other.baoRoot = contract.baoRoot ∧
        Requests start other front call) front := by
    rintro front call ⟨other, hother, settings, options, -, hadmits, -⟩ ⟨before, first, hbefore,
      earlier, hearlier, hrequest⟩
    have hsome : Requested start other.baoRoot front :=
      ⟨earlier, hearlier.trans hother.symm, before, first, hbefore, hrequest⟩
    have hcontract := getContract_of_requested hsome
    rw [hadmits.unknown] at hcontract
    cases hcontract
  exact front_eq_of_not_occurs hnot hwithin' hwithin ⟨contract', hroot, h'⟩ ⟨contract, rfl, h⟩

/-- A settlement of the root would come behind the one request of its contract, and behind a challenge
that verified the blob after that request, or that its own challenge does. -/
structure SettlesBehind (start : Node) (calls : List NodeCall) (rng : Shuffle)
    (options : SettleContractOptions) (baoRoot : Bytes32) : Prop where
  request : ∃ contract front call, contract.baoRoot = baoRoot ∧ front ++ [call] <+: calls ∧
    (run Node.exec start calls).getContract baoRoot = some contract ∧
    Requests start contract front call ∧
    ∀ contract' front' call', contract'.baoRoot = baoRoot → front' ++ [call'] <+: calls →
      Requests start contract' front' call' → front' = front
  challenge : (options.inlineSampleRate = none ∧ ∃ proof : ChallengeProof, proof.baoRoot = baoRoot ∧
      Occurs (Proves start proof) calls) ∨
    ∃ sampleRate codecCalls result, options.inlineSampleRate = some sampleRate ∧
      verifyCommitment rng (run Node.exec start calls).dir (Hex.encode baoRoot.val)
        ⟨sampleRate, none⟩ = (codecCalls, .ok result)

/-- In every run of a node, a settlement that returns has its request and its challenge behind it. -/
theorem settled_behind_challenge (dir : DataDir) (ledger : MicroPaymentLedger)
    (payments : List PaymentDetails) (calls : List NodeCall) {rng : Shuffle} {now : Result UInt64}
    {settings : SettlementSettings} {app : Except PaymentError Bool}
    {node : Except PaymentError Unit} {options : SettleContractOptions} {baoRoot : Bytes32}
    (hsettle : (run Node.exec (Node.fresh dir ledger payments) calls).settle rng now settings app node
      options baoRoot = .ok ()) :
    SettlesBehind (Node.fresh dir ledger payments) calls rng options baoRoot := by
  have htraced := traced_run dir ledger payments calls
  have hok : (settleStorageContract _ _ settings _ options baoRoot).1 = .ok () := hsettle
  obtain ⟨hcontract, hgate⟩ := settleStorageContract_gate hok
  obtain ⟨contract, hcontract⟩ := Option.isSome_iff_exists.mp hcontract
  obtain ⟨rfl, front, call, hwithin, hrequest⟩ := htraced.contract baoRoot contract hcontract
  refine ⟨⟨contract, front, call, rfl, hwithin, hcontract, hrequest, ?_⟩, ?_⟩
  · intro contract' front' call' hroot hwithin' hrequest'
    exact requests_once hwithin hwithin' hrequest hrequest' hroot
  · have hbehind := ensureBaoChallengeGate_ok hgate
    cases hrate : options.inlineSampleRate with
    | none =>
      rw [hrate] at hbehind
      obtain ⟨proof, hproof⟩ := Option.isSome_iff_exists.mp hbehind
      exact .inl ⟨rfl, proof, htraced.proof contract.baoRoot proof hproof⟩
    | some sampleRate =>
      rw [hrate] at hbehind
      obtain ⟨codecCalls, result, hverify⟩ := hbehind
      exact .inr ⟨sampleRate, codecCalls, result, rfl, hverify⟩

end

/-! ### A run -/

section

attribute [local instance] exampleCodec Format.sha256Digests Format.sha256Codec sampleJson

/-- A file is encoded and timestamped, a contract for it is requested, challenged and paid. -/
def settledCalls : List NodeCall :=
  [.store exampleEncode, .store (exampleTimestamp exampleRoot),
    .request ⟨false, false, false⟩ exampleRoot ⟨1, .pub, false⟩ 100,
    .challenge keepOrder (.ok 200) (Hex.encode exampleRoot.val) 8,
    .listed [⟨.bolt11 exampleInvoice, some 10000000, .inbound, .succeeded⟩]]

theorem settled_behind_challenge_example :
    SettlesBehind (Node.fresh freshDir sampleLedger []) settledCalls keepOrder ⟨none⟩ exampleRoot := by
  have hsettle : (run Node.exec (Node.fresh freshDir sampleLedger []) settledCalls).settle keepOrder (.ok 300)
      ⟨1000, 10000⟩ (.ok false) (.ok ()) ⟨none⟩ exampleRoot = .ok () := by
    decide +kernel
  exact settled_behind_challenge freshDir sampleLedger [] settledCalls hsettle

end

end Lord.Market
