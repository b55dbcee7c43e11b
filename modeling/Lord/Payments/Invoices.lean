import Lord.Payments.MicroRail

/-! Payments that are asked for: the invoices of the Lightning rail, the micro-payments of the ecash rail,
and the routing between them. -/

namespace Lord.Payments

/-! ### The Lightning rail -/

/-- A BOLT11 invoice, as the Lightning node returns it. -/
structure Bolt11Invoice where
  paymentHash : Bytes32
  text : String
  deriving Repr, DecidableEq

/-- The running node that invoices are created on: `receive` for an amount in millisatoshi and a memo. -/
structure InvoiceNode where
  receive : UInt64 → String → Except String Bolt11Invoice

/-- Memo tying a BOLT11 invoice to a binding. -/
def invoiceMemo (binding : PaymentBinding) : String :=
  s!"lord {binding.purposeLabel} bao_root={binding.baoRootHex} amount_sats={binding.amountSats}"

def createContractInvoiceOnNode (node : InvoiceNode) (binding : PaymentBinding) :
    Except PaymentError SettlementResult := do
  Lightning.ensureStorageContractBinding binding
  let amountMsat ← okOr binding.amountMsat (.invalidBinding "amount_sats overflow")
  match node.receive amountMsat (invoiceMemo binding) with
  | .error err => .error (.provider s!"failed to create bolt11 invoice: {err}")
  | .ok invoice =>
    .ok ⟨.lightning, binding.amountSats, s!"bolt11:{invoice.text}", some invoice.paymentHash⟩

/-- `create_contract_invoice` on a node that may fail to start. -/
def createContractInvoice (node : Except PaymentError InvoiceNode) (binding : PaymentBinding) :
    Except PaymentError SettlementResult := do
  createContractInvoiceOnNode (← node) binding

/-! ### The coordinator -/

namespace SettlementCoordinator

/-- Create a settlement invoice for a storage contract. -/
def createInvoice (coordinator : SettlementCoordinator) (node : Except PaymentError InvoiceNode)
    (rail : MicroRail) (env : LedgerEnv) (binding : PaymentBinding) :
    Except PaymentError SettlementResult × MicroRail :=
  match ensureStorageContractBinding binding with
  | .error err => (.error err, rail)
  | .ok () =>
    match coordinator.railForAmount binding.amountSats with
    | .lightning => (createContractInvoice node binding, rail)
    | .ecash => rail.payMicro env binding

/-- Challenge fees always use the ecash rail. -/
def payChallengeFee (rail : MicroRail) (env : LedgerEnv) (binding : PaymentBinding) :
    Except PaymentError SettlementResult × MicroRail :=
  if binding.amountSats = 0 then
    (.error (.invalidBinding "amount_sats must be greater than zero"), rail)
  else if binding.purpose ≠ .challengeFee then
    (.error (.invalidBinding "pay_challenge_fee requires purpose ChallengeFee"), rail)
  else
    rail.payMicro env binding

end SettlementCoordinator

/-! ### What the rails return -/

/-- An invoice names its hash. -/
theorem createContractInvoice_ok {node : Except PaymentError InvoiceNode} {binding : PaymentBinding}
    {result : SettlementResult} (h : createContractInvoice node binding = .ok result) :
    result.rail = .lightning ∧ result.amountSats = binding.amountSats ∧
      result.paymentHash.isSome = true := by
  obtain ⟨running, -, h⟩ := bind_eq_ok.mp h
  obtain ⟨⟨⟩, -, h⟩ := bind_eq_ok.mp h
  obtain ⟨amountMsat, -, h⟩ := bind_eq_ok.mp h
  split at h
  · cases h
  · cases h
    exact ⟨rfl, rfl, rfl⟩

/-- An invoice is of the amount of its binding, on the rail of that amount. -/
theorem SettlementCoordinator.createInvoice_ok {coordinator : SettlementCoordinator}
    {node : Except PaymentError InvoiceNode} {rail : MicroRail} {env : LedgerEnv}
    {binding : PaymentBinding} {result : SettlementResult}
    (h : (coordinator.createInvoice node rail env binding).1 = .ok result) :
    binding.amountSats ≠ 0 ∧ result.amountSats = binding.amountSats ∧
      (result.rail = .lightning ∧ result.paymentHash.isSome = true ∨
        result.rail = .ecash ∧ result.reference = ecashBindingReference binding ∧
          ∃ ledger, rail = .live true ledger) := by
  unfold createInvoice at h
  split at h
  · cases h
  · rename_i hensure
    refine ⟨(ensureStorageContractBinding_ok.mp hensure).1, ?_⟩
    split at h
    · obtain ⟨hrail, hamount, hhash⟩ := createContractInvoice_ok h
      exact ⟨hamount, .inl ⟨hrail, hhash⟩⟩
    · obtain ⟨rfl, hlive⟩ := MicroRail.payMicro_ok h
      exact ⟨rfl, .inr ⟨rfl, rfl, hlive⟩⟩

/-- An invoice of the ecash rail is a micro-payment. -/
theorem SettlementCoordinator.createInvoice_ecash {coordinator : SettlementCoordinator}
    {node : Except PaymentError InvoiceNode} {rail rail' : MicroRail} {env : LedgerEnv}
    {binding : PaymentBinding} {result : SettlementResult}
    (h : coordinator.createInvoice node rail env binding = (.ok result, rail'))
    (hrail : result.rail = .ecash) : rail.payMicro env binding = (.ok result, rail') := by
  unfold createInvoice at h
  split at h
  · cases h
  · split at h
    · obtain ⟨hinvoice, -⟩ := Prod.mk.inj h
      rw [(createContractInvoice_ok hinvoice).1] at hrail
      cases hrail
    · exact h

end Lord.Payments
