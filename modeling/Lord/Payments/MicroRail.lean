import Lord.Payments.LedgerFile

/-! The ecash rail: micro-payments that are recorded in the ledger of the wallet, and receipts that are
looked up in it. -/

namespace Lord.Payments

/-- Outcome of a routed payment or invoice creation request. -/
structure SettlementResult where
  rail : SettlementRail
  amountSats : UInt64
  reference : String
  /-- BOLT11 payment hash of an invoice of the Lightning rail. -/
  paymentHash : Option Bytes32
  deriving Repr, DecidableEq

/-- The ledger of the wallet: where its file lies, and what the file holds. -/
structure MicroPaymentLedger where
  path : String
  file : LedgerFile

def MicroPaymentLedger.recordPayment (ledger : MicroPaymentLedger) (env : LedgerEnv)
    (binding : PaymentBinding) (reference : String) : Result Unit × MicroPaymentLedger :=
  match ledger.file.recordPayment ledger.path env binding reference with
  | (result, file) => (result, { ledger with file })

def MicroPaymentLedger.hasPayment [MicroPaymentJson] (ledger : MicroPaymentLedger)
    (binding : PaymentBinding) (reference : String) : Result Bool :=
  ledger.file.hasPayment binding reference

/-- The micro-payment rail: the provider with its ledger, or the stub. -/
inductive MicroRail where
  | live (enabled : Bool) (ledger : Option MicroPaymentLedger)
  | stub

namespace MicroRail

/-- `pay_micro`, with the rail behind it. -/
def payMicro (rail : MicroRail) (env : LedgerEnv) (binding : PaymentBinding) :
    Except PaymentError SettlementResult × MicroRail :=
  match rail with
  | .stub => (.error .notImplemented, .stub)
  | .live enabled ledger =>
    if !enabled then
      (.error (.provider "ecash is disabled; set ecash_enabled: true in lord.yaml"), rail)
    else if binding.amountSats = 0 then
      (.error (.invalidBinding "amount_sats must be greater than zero"), rail)
    else
      let reference := ecashBindingReference binding
      let paid : SettlementResult := ⟨.ecash, binding.amountSats, reference, none⟩
      match ledger with
      | none => (.ok paid, rail)
      | some ledger =>
        match ledger.recordPayment env binding reference with
        | (.error err, ledger) => (.error (.provider (toString err)), .live enabled (some ledger))
        | (.ok (), ledger) => (.ok paid, .live enabled (some ledger))

def verifyMicro [MicroPaymentJson] (rail : MicroRail) (binding : PaymentBinding) (reference : String) :
    Except PaymentError Unit :=
  match rail with
  | .stub => .error .notImplemented
  | .live enabled ledger =>
    if !enabled then
      .error (.provider "ecash is disabled; set ecash_enabled: true in lord.yaml")
    else if reference ≠ ecashBindingReference binding then
      .error (.invalidBinding (s!"ecash receipt `{reference}` does not match binding for " ++
        s!"bao_root {binding.baoRootHex}"))
    else
      match ledger with
      | none => .ok ()
      | some ledger =>
        match ledger.hasPayment binding reference with
        | .error err => .error (.provider (toString err))
        | .ok true => .ok ()
        | .ok false =>
          .error (.provider
            s!"no wallet ledger record for ecash payment on bao_root {binding.baoRootHex}")

/-- The ledger of a rail, or the one that lies beside it. -/
def ledgerOr (rail : MicroRail) (ledger : MicroPaymentLedger) : MicroPaymentLedger :=
  match rail with
  | .live _ (some ledger) => ledger
  | _ => ledger

/-- A micro-payment needs a live rail. -/
theorem payMicro_ok {rail : MicroRail} {env : LedgerEnv} {binding : PaymentBinding}
    {result : SettlementResult} (h : (rail.payMicro env binding).1 = .ok result) :
    result = ⟨.ecash, binding.amountSats, ecashBindingReference binding, none⟩ ∧
      ∃ ledger, rail = .live true ledger := by
  unfold payMicro at h
  split at h
  · cases h
  · rename_i enabled ledger
    cases enabled with
    | false => cases h
    | true =>
      dsimp only [Bool.not_true] at h
      split at h
      · cases h
      · split at h
        · cases h
        · split at h
          · cases h
            exact ⟨rfl, _, rfl⟩
          · split at h
            · cases h
            · cases h
              exact ⟨rfl, _, rfl⟩

/-- A receipt that verifies is the canonical one of the binding. -/
theorem verifyMicro_ok [MicroPaymentJson] {rail : MicroRail} {binding : PaymentBinding}
    {reference : String} (h : rail.verifyMicro binding reference = .ok ()) :
    reference = ecashBindingReference binding := by
  unfold verifyMicro at h
  split at h
  · cases h
  · split at h
    · cases h
    · split at h
      · cases h
      · rename_i href
        simpa using href

/-- A rail with a ledger verifies the receipts that are recorded. -/
theorem verifyMicro_live [MicroPaymentJson] {ledger : MicroPaymentLedger} {binding : PaymentBinding}
    {reference : String} : (live true (some ledger)).verifyMicro binding reference = .ok () ↔
      reference = ecashBindingReference binding ∧ ledger.hasPayment binding reference = .ok true := by
  unfold verifyMicro
  simp only [Bool.not_true, Bool.false_eq_true, if_false]
  split
  · rename_i hother
    exact iff_of_false (fun h => by cases h) fun h => hother h.1
  · rename_i hsame
    cases hpaid : ledger.hasPayment binding reference with
    | error err => simp
    | ok found => cases found <;> simp [Classical.not_not.mp hsame]

/-- A micro-payment that returns is in the ledger behind it, when the ledger before it is read to its end
and ends in a newline. -/
theorem payMicro_hasPayment [MicroPaymentJson] {ledger : MicroPaymentLedger} {env : LedgerEnv}
    {binding : PaymentBinding} {result : SettlementResult} {found : Bool}
    (hjson : JsonOf [binding.record (ecashBindingReference binding)])
    (hterminated : ledger.file.Terminated)
    (hfound : ledger.hasPayment binding (ecashBindingReference binding) = .ok found)
    (h : ((live true (some ledger)).payMicro env binding).1 = .ok result) :
    ∃ ledger', ((live true (some ledger)).payMicro env binding).2 = .live true (some ledger') ∧
      ledger'.hasPayment binding result.reference = .ok true := by
  obtain ⟨rfl, -⟩ := payMicro_ok h
  unfold payMicro at h ⊢
  simp only [Bool.not_true, Bool.false_eq_true, if_false] at h ⊢
  split at h
  · cases h
  · rename_i hpositive
    rw [if_neg hpositive]
    rcases hrecord : ledger.file.recordPayment ledger.path env binding (ecashBindingReference binding) with
      ⟨recorded, file⟩
    simp only [MicroPaymentLedger.recordPayment, hrecord] at h ⊢
    cases recorded with
    | error err => cases h
    | ok _ =>
      exact ⟨_, rfl, LedgerFile.hasPayment_recordPayment hjson hterminated hfound hrecord⟩

/-- What is paid so is verified by its receipt. -/
theorem verifyMicro_payMicro [MicroPaymentJson] {ledger : MicroPaymentLedger} {env : LedgerEnv}
    {binding : PaymentBinding} {result : SettlementResult} {found : Bool}
    (hjson : JsonOf [binding.record (ecashBindingReference binding)])
    (hterminated : ledger.file.Terminated)
    (hfound : ledger.hasPayment binding (ecashBindingReference binding) = .ok found)
    (h : ((live true (some ledger)).payMicro env binding).1 = .ok result) :
    ((live true (some ledger)).payMicro env binding).2.verifyMicro binding result.reference = .ok () := by
  obtain ⟨ledger', hrail, hpaid⟩ := payMicro_hasPayment hjson hterminated hfound h
  obtain ⟨rfl, -⟩ := payMicro_ok h
  rw [hrail, verifyMicro_live]
  exact ⟨rfl, hpaid⟩

end MicroRail

/-- A ledger without a file. -/
def sampleLedger : MicroPaymentLedger := ⟨"/lord/ecash/micro_payments.jsonl", none⟩

/-- A file system that takes every append. -/
def sampleEnv : LedgerEnv := ⟨.ok (), none⟩

end Lord.Payments
