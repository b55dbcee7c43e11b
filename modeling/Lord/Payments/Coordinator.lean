import Lord.Lib.Hex

/-! Settlement of storage contracts: the binding of a payment to a bao root, and the coordinator
that routes it to the Lightning or the ecash rail by amount. -/

namespace Lord.Payments

/-- Payment provider errors. -/
inductive PaymentError where
  | notImplemented
  | invalidBinding (message : String)
  | provider (message : String)
  deriving Repr, DecidableEq

def PaymentError.toString : PaymentError → String
  | notImplemented => "settlement is not implemented"
  | invalidBinding message => s!"invalid payment binding: {message}"
  | provider message => s!"provider error: {message}"

/-- Why a payment is being requested or settled. -/
inductive PaymentPurpose where
  | storageContract
  | challengeFee
  | ltpMicroPayment
  deriving Repr, DecidableEq

/-- Binds a payment to a committed bao root and purpose. -/
structure PaymentBinding where
  baoRoot : Bytes32
  purpose : PaymentPurpose
  amountSats : UInt64
  deriving Repr, DecidableEq

namespace PaymentBinding

def baoRootHex (binding : PaymentBinding) : String := Hex.encode binding.baoRoot.val

/-- Stable label for memo and receipt fields. -/
def purposeLabel (binding : PaymentBinding) : String :=
  match binding.purpose with
  | .storageContract => "storage_contract"
  | .challengeFee => "challenge_fee"
  | .ltpMicroPayment => "ltp_micro_payment"

/-- `amount_sats.checked_mul(1_000)`. -/
def amountMsat (binding : PaymentBinding) : Option UInt64 :=
  if binding.amountSats.toNat * 1000 < 2 ^ 64 then some (binding.amountSats * 1000) else none

end PaymentBinding

/-- Canonical ecash binding receipt for a binding. -/
def ecashBindingReference (binding : PaymentBinding) : String :=
  s!"ecash:binding:{binding.baoRootHex}:{binding.purposeLabel}"

/-- Settlement rail selected by amount threshold. -/
inductive SettlementRail where
  | lightning
  | ecash
  deriving Repr, DecidableEq

/-- Credentials required to settle a storage contract. -/
structure SettlementCredentials where
  invoiceHash : Option Bytes32
  ecashReceipt : Option String
  baoGateSatisfied : Bool

/-- The checks of the Lightning provider when a contract is settled. -/
structure LightningSettlementProvider where
  settleContract : PaymentBinding → Option Bytes32 → Except PaymentError Unit

/-- The checks of the micro-payment provider when a receipt is verified. -/
structure MicroPaymentProvider where
  verifyMicro : PaymentBinding → String → Except PaymentError Unit

/-- Routes payments to Lightning or ecash by a threshold, which is never zero. -/
structure SettlementCoordinator where
  lightning : LightningSettlementProvider
  micro : MicroPaymentProvider
  thresholdSats : UInt64
  threshold_ne_zero : thresholdSats ≠ 0

/-- The check of a binding in front of a storage contract, with the error for another purpose. -/
def ensureContractBinding (wrongPurpose : String) (binding : PaymentBinding) :
    Except PaymentError Unit :=
  if binding.amountSats = 0 then
    .error (.invalidBinding "amount_sats must be greater than zero")
  else if binding.purpose ≠ .storageContract then
    .error (.invalidBinding wrongPurpose)
  else
    .ok ()

/-- The check of the coordinator. -/
def ensureStorageContractBinding : PaymentBinding → Except PaymentError Unit :=
  ensureContractBinding "create_invoice and settle_contract require purpose StorageContract"

/-- The check of the Lightning provider, which names its own call for a settlement as well. -/
def Lightning.ensureStorageContractBinding : PaymentBinding → Except PaymentError Unit :=
  ensureContractBinding "create_contract_invoice requires purpose StorageContract"

namespace SettlementCoordinator

def new (lightning : LightningSettlementProvider) (micro : MicroPaymentProvider)
    (thresholdSats : UInt64) : Except PaymentError SettlementCoordinator :=
  if h : thresholdSats = 0 then
    .error (.invalidBinding "threshold_sats must be greater than zero")
  else
    .ok ⟨lightning, micro, thresholdSats, h⟩

def railForAmount (coordinator : SettlementCoordinator) (amountSats : UInt64) : SettlementRail :=
  if coordinator.thresholdSats ≤ amountSats then .lightning else .ecash

/-- Settle a storage contract with the credentials persisted for it. -/
def settleContract (coordinator : SettlementCoordinator) (binding : PaymentBinding)
    (credentials : SettlementCredentials) : Except PaymentError Unit := do
  ensureStorageContractBinding binding
  if !credentials.baoGateSatisfied then
    .error (.provider "bao challenge gate not satisfied")
  else
    match coordinator.railForAmount binding.amountSats with
    | .lightning => coordinator.lightning.settleContract binding credentials.invoiceHash
    | .ecash =>
      match credentials.ecashReceipt with
      | some receipt => coordinator.micro.verifyMicro binding receipt
      | none =>
        .error (.provider s!"no ecash receipt persisted for bao_root {binding.baoRootHex}")

end SettlementCoordinator

/-! ### The Lightning rail -/

inductive PaymentDirection where
  | inbound
  | outbound
  deriving Repr, DecidableEq

inductive PaymentStatus where
  | pending
  | succeeded
  | failed
  deriving Repr, DecidableEq

/-- What a payment of the Lightning node is; the scan skips every kind but BOLT11. -/
inductive PaymentKind where
  | bolt11 (hash : Bytes32)
  | other
  deriving Repr, DecidableEq

/-- A payment as the Lightning node lists it. -/
structure PaymentDetails where
  kind : PaymentKind
  amountMsat : Option UInt64
  direction : PaymentDirection
  status : PaymentStatus
  deriving Repr, DecidableEq

/-- The tests of the payment scan: one that does not `continue` past the payment. -/
def PaymentDetails.settles (payment : PaymentDetails) (expectedMsat : UInt64)
    (expectedPaymentHash : Option Bytes32) : Bool :=
  payment.direction = .inbound && payment.status = .succeeded &&
    match payment.kind with
    | .other => false
    | .bolt11 hash =>
      (match expectedPaymentHash with
        | some expected => hash = expected
        | none => true) && payment.amountMsat = some expectedMsat

/-- Best-effort settlement check: an inbound BOLT11 payment succeeded for the binding amount. -/
def settleContractOnNode (payments : List PaymentDetails) (binding : PaymentBinding)
    (expectedPaymentHash : Option Bytes32) : Except PaymentError Unit := do
  Lightning.ensureStorageContractBinding binding
  let expectedMsat ← okOr binding.amountMsat (.invalidBinding "amount_sats overflow")
  if payments.any fun payment => payment.settles expectedMsat expectedPaymentHash then
    .ok ()
  else
    let hashHint := (expectedPaymentHash.map fun hash => Hex.encode hash.val).getD "none"
    .error (.provider (s!"contract payment not settled yet for bao_root {binding.baoRootHex} " ++
      s!"(expected_payment_hash={hashHint})"))

theorem ensureContractBinding_ok {wrongPurpose : String} {binding : PaymentBinding} :
    ensureContractBinding wrongPurpose binding = .ok () ↔
      binding.amountSats ≠ 0 ∧ binding.purpose = .storageContract := by
  unfold ensureContractBinding
  split
  · rename_i h
    simp [h]
  · rename_i h
    split
    · rename_i hpurpose
      simp [hpurpose]
    · rename_i hpurpose
      simpa [h] using hpurpose

theorem ensureStorageContractBinding_ok {binding : PaymentBinding} :
    ensureStorageContractBinding binding = .ok () ↔
      binding.amountSats ≠ 0 ∧ binding.purpose = .storageContract :=
  ensureContractBinding_ok

/-- The two checks let the same bindings pass. -/
theorem Lightning.ensureStorageContractBinding_ok {binding : PaymentBinding} :
    Lightning.ensureStorageContractBinding binding = .ok () ↔
      Payments.ensureStorageContractBinding binding = .ok () :=
  ensureContractBinding_ok.trans ensureContractBinding_ok.symm

theorem PaymentBinding.amountMsat_eq_some {binding : PaymentBinding} {msat : UInt64} :
    binding.amountMsat = some msat ↔ msat.toNat = binding.amountSats.toNat * 1000 := by
  have hmsat := msat.toNat_lt
  unfold amountMsat
  split
  · rename_i hlt
    rw [Option.some.injEq, ← UInt64.toNat_inj, UInt64.toNat_mul]
    simp only [UInt64.reduceToNat]
    omega
  · simp only [reduceCtorEq, false_iff]
    omega

theorem SettlementCoordinator.settleContract_lightning {coordinator : SettlementCoordinator}
    {binding : PaymentBinding} {credentials : SettlementCredentials}
    (hrail : coordinator.thresholdSats ≤ binding.amountSats)
    (hgate : credentials.baoGateSatisfied = true) :
    coordinator.settleContract binding credentials = .ok () ↔
      ensureStorageContractBinding binding = .ok () ∧
        coordinator.lightning.settleContract binding credentials.invoiceHash = .ok () := by
  simp [settleContract, bind_eq_ok, railForAmount, hrail, hgate, Unique.exists_iff]

theorem SettlementCoordinator.settleContract_ecash {coordinator : SettlementCoordinator}
    {binding : PaymentBinding} {credentials : SettlementCredentials}
    (hrail : ¬coordinator.thresholdSats ≤ binding.amountSats)
    (h : coordinator.settleContract binding credentials = .ok ()) :
    ∃ receipt, credentials.ecashReceipt = some receipt ∧
      coordinator.micro.verifyMicro binding receipt = .ok () := by
  unfold settleContract at h
  obtain ⟨_, -, h⟩ := bind_eq_ok.mp h
  split at h
  · cases h
  · simp only [railForAmount, hrail, if_false] at h
    split at h
    · rename_i receipt hreceipt
      exact ⟨receipt, hreceipt, h⟩
    · cases h

/-- With an expected hash the scan stops at a payment of that hash and the exact amount. -/
theorem PaymentDetails.settles_some {payment : PaymentDetails} {msat : UInt64} {hash : Bytes32} :
    payment.settles msat (some hash) = true ↔ payment.direction = .inbound ∧
      payment.status = .succeeded ∧ payment.kind = .bolt11 hash ∧
        payment.amountMsat = some msat := by
  cases hkind : payment.kind <;> simp [settles, hkind, and_assoc]

/-- Without one it stops at any payment of the exact amount. -/
theorem PaymentDetails.settles_none {payment : PaymentDetails} {msat : UInt64} :
    payment.settles msat none = true ↔ ∃ hash, payment.settles msat (some hash) = true := by
  cases hkind : payment.kind <;> simp [settles, hkind]

theorem settleContractOnNode_ok {payments : List PaymentDetails} {binding : PaymentBinding}
    {expectedPaymentHash : Option Bytes32} :
    settleContractOnNode payments binding expectedPaymentHash = .ok () ↔
      ensureStorageContractBinding binding = .ok () ∧ ∃ msat, binding.amountMsat = some msat ∧
        ∃ payment ∈ payments, payment.settles msat expectedPaymentHash = true := by
  unfold settleContractOnNode
  constructor
  · intro h
    obtain ⟨_, hbinding, h⟩ := bind_eq_ok.mp h
    obtain ⟨msat, hmsat, h⟩ := bind_eq_ok.mp h
    split at h
    · rename_i hany
      exact ⟨Lightning.ensureStorageContractBinding_ok.mp hbinding, msat, okOr_eq_ok.mp hmsat,
        List.any_eq_true.mp hany⟩
    · cases h
  · rintro ⟨hbinding, msat, hmsat, hany⟩
    refine bind_eq_ok.mpr ⟨(), Lightning.ensureStorageContractBinding_ok.mpr hbinding,
      bind_eq_ok.mpr ⟨msat, okOr_eq_ok.mpr hmsat, ?_⟩⟩
    rw [if_pos (List.any_eq_true.mpr hany)]

/-- The provider over a node: its payments, or the error that starting it ended in. -/
def lightningPaymentProvider (node : Except PaymentError (List PaymentDetails)) :
    LightningSettlementProvider where
  settleContract binding expectedPaymentHash := do
    settleContractOnNode (← node) binding expectedPaymentHash

theorem lightningPaymentProvider_ok {node : Except PaymentError (List PaymentDetails)}
    {binding : PaymentBinding} {expectedPaymentHash : Option Bytes32} :
    (lightningPaymentProvider node).settleContract binding expectedPaymentHash = .ok () ↔
      ∃ payments, node = .ok payments ∧
        settleContractOnNode payments binding expectedPaymentHash = .ok () :=
  bind_eq_ok

end Lord.Payments
