import Lord.Bitcoin.Script
import Lord.Calendar.Anchor

/-! What an anchor pays: the fee from the estimate to the checks before the batch, and to the change of
the transaction that is handed to the wallet. -/

namespace Lord.Calendar

open Bitcoin

/-! ### The transaction -/

/-- An entry of `listunspent`. -/
structure Utxo where
  outpoint : OutPoint
  amount : UInt64
  deriving Repr, DecidableEq

/-- `max_by_key` of the amount: the last one of the greatest. -/
def richest (utxos : List Utxo) : Option Utxo :=
  utxos.foldl (fun best utxo =>
    match best with
    | none => some utxo
    | some best => if utxo.amount < best.amount then some best else some utxo) none

/-- Data behind its length in a script. -/
def pushSlice (data : Bytes) : Bytes :=
  if data.length < 0x4c then UInt8.ofNat data.length :: data
  else if data.length < 0x100 then 0x4c :: UInt8.ofNat data.length :: data
  else if data.length < 0x10000 then 0x4d :: LittleEndian.encode 2 data.length ++ data
  else 0x4e :: LittleEndian.encode 4 data.length ++ data

structure SignedAnchor where
  complete : Bool
  transaction : Result Transaction

/-- What a broadcast takes from the wallet of the node. -/
structure AnchorRpc where
  newAddress : Result Bytes
  unspent : Result (List Utxo)
  sign : Transaction → Result SignedAnchor
  send : Transaction → Result String

/-- The transaction that is handed to signing, and the output that it spends. -/
def unsignedAnchor (rpc : AnchorRpc) (fee : Nat) (merkleRoot : Bytes) : Result (Utxo × Transaction) := do
  let changeScript ← rpc.newAddress.context "getnewaddress failed"
  let unspent ← rpc.unspent.context "listunspent failed"
  let utxo ← okOr (richest (unspent.filter fun utxo => spendable fee utxo.amount.toNat))
    "no spendable UTXO for calendar anchor"
  if 2 ^ 32 ≤ merkleRoot.length then
    .error "merkle root too large for OP_RETURN"
  else
    let changeAmount ← okOr
      (if fee ≤ utxo.amount.toNat then some (UInt64.ofNat (utxo.amount.toNat - fee)) else none)
      "input too small for anchor fee"
    .ok (utxo, {
      version := 2
      lockTime := 0
      input := [⟨utxo.outpoint, [], 0xffffffff, []⟩]
      output := [⟨changeAmount, changeScript⟩, ⟨0, 0x6a :: pushSlice merkleRoot⟩] })

/-- The broadcast of a tick. -/
def broadcastAnchor (rpc : AnchorRpc) (fee : Nat) (merkleRoot : Bytes) : Result String := do
  let (_, unsigned) ← unsignedAnchor rpc fee merkleRoot
  let signed ← (rpc.sign unsigned).context "signrawtransactionwithwallet failed"
  if !signed.complete then
    .error "failed to sign calendar anchor transaction"
  else
    let tx ← signed.transaction.context "decode signed tx"
    if tx.output.all fun out => !isOpReturn out.scriptPubkey then
      .error "signed anchor transaction is missing OP_RETURN output"
    else
      (rpc.send tx).context "sendrawtransaction failed"

/-! ### The way of the fee -/

/-- How far the fee of a tick comes. -/
inductive Payment where
  | failed (err : Error)
  | overCap (fee maxFee : Nat)
  | lowBalance (reason : String)
  | refused (err : Error)
  | handed (utxo : Utxo) (unsigned : Transaction)
  deriving DecidableEq

/-- The checks of a tick and the transaction that it builds when they pass. -/
def payAnchor (config : AnchorConfig) (env : FundEnv) (rpc : AnchorRpc) (merkleRoot : Bytes) : Payment :=
  match anchorFeeSats config env with
  | .error err => .failed err
  | .ok fee =>
    match config.maxAnchorFeeSats.filter (· < fee) with
    | some maxFee => .overCap fee maxFee
    | none =>
      match skippedReason.balanceReason config env with
      | some reason => .lowBalance reason
      | none =>
        match ensureWalletFunded config env fee with
        | .error err => .refused err
        | .ok () =>
          match unsignedAnchor rpc fee merkleRoot with
          | .error err => .refused err
          | .ok (utxo, unsigned) => .handed utxo unsigned

/-- The reason for a skip, by the cap. -/
theorem skippedReason_eq (config : AnchorConfig) (env : FundEnv) (fee : Nat) :
    skippedReason config env fee = match config.maxAnchorFeeSats.filter (· < fee) with
      | some maxFee => some s!"anchor fee {fee} sats exceeds cap {maxFee} sats"
      | none => skippedReason.balanceReason config env := by
  rw [skippedReason]
  cases config.maxAnchorFeeSats with
  | none => rfl
  | some maxFee => by_cases h : maxFee < fee <;> simp [Option.filter_some, h]

/-- How the checks of a tick end, by what becomes of its fee. -/
def Payment.Ends (inner : CalendarInner) (env : FundEnv) (ended : Result Phase × CalendarInner) :
    Payment → Prop
  | .failed err => ended = (.error err, inner)
  | .overCap fee maxFee => ended =
      (recordAnchorSkipped inner s!"anchor fee {fee} sats exceeds cap {maxFee} sats").saveThen
        env.write .idle
  | .lowBalance reason => ended = (recordAnchorSkipped inner reason).saveThen env.write .idle
  | .refused err => ended = (.error err, inner) ∨ ended = (.ok (.funded env.now), inner)
  | .handed _ _ => ended = (.ok (.funded env.now), inner)

/-- The checks of a tick end as its fee tells. -/
theorem fundSection_payment {inner : CalendarInner} {config : AnchorConfig} {lastTx : Nat} {env : FundEnv}
    (htime : ¬env.now - lastTx < config.minTxInterval) (hwallet : config.walletName = none)
    (rpc : AnchorRpc) (merkleRoot : Bytes) :
    (payAnchor config env rpc merkleRoot).Ends inner env (fundSection inner config lastTx env) := by
  rw [fundSection, if_neg htime, if_neg (by simp [hwallet]), payAnchor]
  cases anchorFeeSats config env with
  | error err => exact rfl
  | ok fee =>
    simp only [skippedReason_eq]
    cases config.maxAnchorFeeSats.filter (· < fee) with
    | some maxFee => exact rfl
    | none =>
      cases skippedReason.balanceReason config env with
      | some reason => exact rfl
      | none =>
        cases ensureWalletFunded config env fee with
        | error err => exact .inl rfl
        | ok =>
          cases unsignedAnchor rpc fee merkleRoot with
          | error err => exact .inr rfl
          | ok handed => exact rfl

/-! ### The fee at a rate -/

/-- The fee of 250 virtual bytes at a rate for 1000 of them, and 1000 satoshis at least. -/
def estimatedFee (rate : UInt64) : Nat := max regtestAnchorFeeSats ((rate.toNat * 250 + 999) / 1000)

/-- The fee that is paid at a rate. -/
def anchorFee (rate : UInt64) : Nat := max (min (rate.toNat * 250) (2 ^ 64 - 1)) regtestAnchorFeeSats

theorem fees_of_le {rate : UInt64} (h : rate.toNat ≤ 4) :
    anchorFee rate = 1000 ∧ estimatedFee rate = 1000 := by
  unfold anchorFee estimatedFee regtestAnchorFeeSats
  omega

theorem estimatedFee_lt {rate : UInt64} (h : 4 < rate.toNat) : estimatedFee rate < anchorFee rate := by
  have hrate := rate.toNat_lt
  unfold anchorFee estimatedFee regtestAnchorFeeSats
  omega

theorem estimatedFee_le (rate : UInt64) : estimatedFee rate ≤ anchorFee rate := by
  by_cases h : rate.toNat ≤ 4
  · obtain ⟨hpaid, hestimated⟩ := fees_of_le h
    omega
  · exact Nat.le_of_lt (estimatedFee_lt (Nat.lt_of_not_le h))

/-- An amount that covers the fee that is paid, and passes the check, exceeds the estimated one and the dust
limit. -/
theorem lt_of_spendable {rate : UInt64} {amount : Nat} (hspendable : spendable (anchorFee rate) amount = true)
    (hfee : anchorFee rate ≤ amount) : estimatedFee rate + dustSats < amount := by
  have hrate := rate.toNat_lt
  simp only [spendable, decide_eq_true_eq] at hspendable
  unfold anchorFee estimatedFee regtestAnchorFeeSats dustSats at *
  omega

theorem spendable_of_le {rate : UInt64} (h : rate.toNat ≤ 4) (amount : Nat) :
    spendable (anchorFee rate) amount = true ↔ estimatedFee rate + dustSats < amount := by
  obtain ⟨hpaid, hestimated⟩ := fees_of_le h
  rw [hpaid, hestimated, spendable, decide_eq_true_eq]
  rfl

/-! ### A wallet -/

theorem richest_cons (utxos : List Utxo) (utxo : Utxo) :
    richest (utxos ++ [utxo]) = match richest utxos with
      | none => some utxo
      | some best => if utxo.amount < best.amount then some best else some utxo := by
  rw [richest, List.foldl_append]
  rfl

theorem mem_of_richest {utxos : List Utxo} {utxo : Utxo} (h : richest utxos = some utxo) :
    utxo ∈ utxos := by
  induction utxos using List.reverseRecOn generalizing utxo with
  | nil => cases h
  | append_singleton rest last ih =>
    rw [richest_cons] at h
    cases hrest : richest rest with
    | none =>
      rw [hrest] at h
      cases h
      simp
    | some best =>
      simp only [hrest] at h
      split at h
      · cases h
        exact List.mem_append_left _ (ih hrest)
      · cases h
        simp

theorem richest_eq_none {utxos : List Utxo} : richest utxos = none ↔ utxos = [] := by
  refine ⟨fun h => ?_, fun h => h ▸ rfl⟩
  induction utxos using List.reverseRecOn with
  | nil => rfl
  | append_singleton rest last ih =>
    rw [richest_cons] at h
    split at h
    · cases h
    · split at h <;> cases h

/-- A wallet whose calls all return. -/
structure AnchorWallet where
  unspent : List Utxo
  changeScript : Bytes
  sign : Transaction → Result SignedAnchor
  send : Transaction → Result String

namespace AnchorWallet

def amounts (wallet : AnchorWallet) : List Nat := wallet.unspent.map fun utxo => utxo.amount.toNat

def rpc (wallet : AnchorWallet) : AnchorRpc :=
  ⟨.ok wallet.changeScript, .ok wallet.unspent, wallet.sign, wallet.send⟩

/-- The checks of a tick with this wallet, at this rate. -/
def fundEnv (wallet : AnchorWallet) (rate : UInt64) (now : Nat) (write : Result Unit) : FundEnv :=
  ⟨now, .ok (some rate.toNat), .ok wallet.amounts, .ok wallet.amounts, write⟩

end AnchorWallet

variable {config : AnchorConfig} {wallet : AnchorWallet} {rate : UInt64} {now : Nat}
  {write : Result Unit} {fee : Nat} {merkleRoot : Bytes32}

theorem anchorFeeSats_live (h : config.regtest = false) :
    anchorFeeSats config (wallet.fundEnv rate now write) = .ok (anchorFee rate) := by
  rw [anchorFeeSats, if_neg (by simp [h])]
  rfl

theorem balanceReason_eq_none : skippedReason.balanceReason config (wallet.fundEnv rate now write) = none ↔
    ¬∃ minBalance, config.minWalletBalanceSats = some minBalance ∧ wallet.amounts.sum < minBalance := by
  rw [skippedReason.balanceReason]
  cases config.minWalletBalanceSats with
  | none => simp
  | some minBalance =>
    by_cases h : wallet.amounts.sum < minBalance <;>
      simp [AnchorWallet.fundEnv, Result.context, h]

theorem ensureWalletFunded_eq_ok :
    ensureWalletFunded config (wallet.fundEnv rate now write) fee = .ok () ↔
      ∃ utxo ∈ wallet.unspent, spendable fee utxo.amount.toNat = true := by
  simp only [ensureWalletFunded, AnchorWallet.fundEnv, Result.context, ok_bind]
  by_cases h : wallet.amounts.any (spendable fee)
  · rw [if_pos h]
    exact iff_of_true rfl (by simpa [AnchorWallet.amounts] using h)
  · rw [if_neg h]
    have hnone : ¬∃ utxo ∈ wallet.unspent, spendable fee utxo.amount.toNat = true := by
      simpa [AnchorWallet.amounts] using h
    split <;> simp [hnone]

/-- The transaction spends an output of the wallet, pays the fee and keeps the rest. -/
theorem unsignedAnchor_eq_ok {utxo : Utxo} {unsigned : Transaction}
    (h : unsignedAnchor wallet.rpc fee merkleRoot.val = .ok (utxo, unsigned)) :
    utxo ∈ wallet.unspent ∧ spendable fee utxo.amount.toNat = true ∧ fee ≤ utxo.amount.toNat ∧
      unsigned.input.map TxIn.previousOutput = [utxo.outpoint] ∧
      unsigned.output = [⟨UInt64.ofNat (utxo.amount.toNat - fee), wallet.changeScript⟩,
        ⟨0, 0x6a :: pushSlice merkleRoot.val⟩] := by
  simp only [unsignedAnchor, AnchorWallet.rpc, Result.context, ok_bind] at h
  obtain ⟨best, hbest, h⟩ := bind_eq_ok.mp h
  rw [okOr_eq_ok] at hbest
  obtain ⟨hmem, hspendable⟩ := List.mem_filter.mp (mem_of_richest hbest)
  rw [if_neg (by rw [merkleRoot.property]; decide)] at h
  obtain ⟨change, hchange, h⟩ := bind_eq_ok.mp h
  rw [okOr_eq_ok] at hchange
  split at hchange
  · rename_i hfee
    cases hchange
    cases h
    exact ⟨hmem, hspendable, hfee, rfl, rfl⟩
  · cases hchange

/-- The transaction is not built only when no output that passes the check covers the fee. -/
theorem unsignedAnchor_eq_error {err : Error}
    (h : unsignedAnchor wallet.rpc fee merkleRoot.val = .error err) :
    (∀ utxo ∈ wallet.unspent, ¬spendable fee utxo.amount.toNat = true) ∨
      ∃ utxo ∈ wallet.unspent, spendable fee utxo.amount.toNat = true ∧ utxo.amount.toNat < fee := by
  simp only [unsignedAnchor, AnchorWallet.rpc, Result.context, ok_bind] at h
  cases hbest : richest (wallet.unspent.filter fun utxo => spendable fee utxo.amount.toNat) with
  | none =>
    left
    simpa [richest_eq_none] using hbest
  | some best =>
    obtain ⟨hmem, hspendable⟩ := List.mem_filter.mp (mem_of_richest hbest)
    refine .inr ⟨best, hmem, hspendable, Nat.lt_of_not_le fun hfee => ?_⟩
    rw [hbest] at h
    simp only [okOr, ok_bind, if_pos hfee] at h
    rw [if_neg (by rw [merkleRoot.property]; decide)] at h
    cases h

/-! ### What an anchor pays -/

/-- The tick pays the fee that was estimated and no more: so does the transaction that is handed to signing,
with change above the dust limit, and only that fee makes the tick skip or refuse the anchor. -/
def PaysEstimate (config : AnchorConfig) (wallet : AnchorWallet) (rate : UInt64) (now : Nat)
    (write : Result Unit) (merkleRoot : Bytes32) : Prop :=
  match payAnchor config (wallet.fundEnv rate now write) wallet.rpc merkleRoot.val with
  | .handed utxo unsigned =>
    utxo ∈ wallet.unspent ∧ unsigned.input.map TxIn.previousOutput = [utxo.outpoint] ∧
      utxo.amount.toNat ≤ (unsigned.output.map (·.value.toNat)).sum + estimatedFee rate ∧
      (∀ maxFee, config.maxAnchorFeeSats = some maxFee →
        utxo.amount.toNat ≤ (unsigned.output.map (·.value.toNat)).sum + maxFee) ∧
      ∃ change ∈ unsigned.output, change.scriptPubkey = wallet.changeScript ∧
        dustSats < change.value.toNat
  | .overCap _ maxFee => maxFee < estimatedFee rate
  | .refused _ => ∀ utxo ∈ wallet.unspent, utxo.amount.toNat ≤ estimatedFee rate + dustSats
  | .failed _ | .lowBalance _ => True

/-- The rate is at most four satoshis for 1000 virtual bytes, or the cap is below the estimated fee, or the cap
allows the fee that is paid and the wallet is below its minimum or has no output for the estimated fee. -/
def FeeFits (config : AnchorConfig) (wallet : AnchorWallet) (rate : UInt64) : Prop :=
  rate.toNat ≤ 4 ∨
  (∃ maxFee, config.maxAnchorFeeSats = some maxFee ∧ maxFee < estimatedFee rate) ∨
  ((∀ maxFee, config.maxAnchorFeeSats = some maxFee → anchorFee rate ≤ maxFee) ∧
    ((∃ minBalance, config.minWalletBalanceSats = some minBalance ∧ wallet.amounts.sum < minBalance) ∨
      ∀ utxo ∈ wallet.unspent, utxo.amount.toNat ≤ estimatedFee rate + dustSats))

/-- A cap that allows the fee that is paid allows the estimated one. -/
theorem not_lt_of_cap (hcap : ∀ maxFee, config.maxAnchorFeeSats = some maxFee → anchorFee rate ≤ maxFee) :
    ¬∃ maxFee, config.maxAnchorFeeSats = some maxFee ∧ maxFee < estimatedFee rate := by
  rintro ⟨maxFee, hmax, hlt⟩
  have hpaid := hcap maxFee hmax
  have hestimated := estimatedFee_le rate
  omega

/-- A refusal is right exactly at a low rate, or in a wallet with no output for the estimated fee. -/
theorem refused_iff
    (hnone : rate.toNat ≤ 4 → ∀ utxo ∈ wallet.unspent, ¬spendable (anchorFee rate) utxo.amount.toNat = true) :
    (∀ utxo ∈ wallet.unspent, utxo.amount.toNat ≤ estimatedFee rate + dustSats) ↔
      rate.toNat ≤ 4 ∨ ∀ utxo ∈ wallet.unspent, utxo.amount.toNat ≤ estimatedFee rate + dustSats := by
  refine ⟨.inr, ?_⟩
  rintro (hlow | hpoor)
  · intro utxo hmem
    have hnot := hnone hlow utxo hmem
    rw [spendable_of_le hlow] at hnot
    exact Nat.le_of_not_lt hnot
  · exact hpoor

/-- A transaction pays the estimated fee exactly at a low rate. -/
theorem handed_iff {utxo : Utxo} {unsigned : Transaction}
    (hunsigned : unsignedAnchor wallet.rpc (anchorFee rate) merkleRoot.val = .ok (utxo, unsigned))
    (hcap : ∀ maxFee, config.maxAnchorFeeSats = some maxFee → anchorFee rate ≤ maxFee) :
    (utxo ∈ wallet.unspent ∧ unsigned.input.map TxIn.previousOutput = [utxo.outpoint] ∧
      utxo.amount.toNat ≤ (unsigned.output.map (·.value.toNat)).sum + estimatedFee rate ∧
      (∀ maxFee, config.maxAnchorFeeSats = some maxFee →
        utxo.amount.toNat ≤ (unsigned.output.map (·.value.toNat)).sum + maxFee) ∧
      ∃ change ∈ unsigned.output, change.scriptPubkey = wallet.changeScript ∧
        dustSats < change.value.toNat) ↔
      rate.toNat ≤ 4 ∨ ∀ utxo ∈ wallet.unspent, utxo.amount.toNat ≤ estimatedFee rate + dustSats := by
  obtain ⟨hmem, hspendable, hfee, hinput, houtput⟩ := unsignedAnchor_eq_ok hunsigned
  have hbound := utxo.amount.toNat_lt
  have hchange : (UInt64.ofNat (utxo.amount.toNat - anchorFee rate)).toNat =
      utxo.amount.toNat - anchorFee rate :=
    UInt64.toNat_ofNat_of_lt' (Nat.lt_of_le_of_lt (Nat.sub_le _ _) hbound)
  have hsum : (unsigned.output.map (·.value.toNat)).sum = utxo.amount.toNat - anchorFee rate := by
    rw [houtput]
    simpa using hchange
  constructor
  · rintro ⟨-, -, hpaid, -⟩
    rw [hsum] at hpaid
    by_cases hlow : rate.toNat ≤ 4
    · exact .inl hlow
    · have hmore := estimatedFee_lt (Nat.lt_of_not_le hlow)
      omega
  · intro h
    have hrich := lt_of_spendable hspendable hfee
    have hlow : rate.toNat ≤ 4 := h.resolve_right fun hpoor => Nat.not_lt.mpr (hpoor utxo hmem) hrich
    obtain ⟨hpaid, hestimated⟩ := fees_of_le hlow
    refine ⟨hmem, hinput, by omega, fun maxFee hmax => ?_,
      ⟨_, by rw [houtput]; exact List.mem_cons_self, rfl, ?_⟩⟩
    · have hcapped := hcap maxFee hmax
      omega
    · rw [hchange]
      omega

/-- Off regtest, the fee is the estimated one exactly under this condition. -/
theorem paysEstimate_iff (hnetwork : config.regtest = false) :
    PaysEstimate config wallet rate now write merkleRoot ↔ FeeFits config wallet rate := by
  unfold PaysEstimate FeeFits
  rw [payAnchor, anchorFeeSats_live hnetwork]
  dsimp only
  cases hfilter : config.maxAnchorFeeSats.filter (· < anchorFee rate) with
  | some maxFee =>
    obtain ⟨hmax, hlt⟩ := Option.filter_eq_some_iff.mp hfilter
    rw [decide_eq_true_eq] at hlt
    constructor
    · exact fun h => .inr (.inl ⟨maxFee, hmax, h⟩)
    · rintro (hlow | ⟨maxFee', hmax', hlt'⟩ | ⟨hcap, -⟩)
      · obtain ⟨hpaid, hestimated⟩ := fees_of_le hlow
        omega
      · rw [hmax] at hmax'
        cases hmax'
        exact hlt'
      · exact absurd hlt (Nat.not_lt.mpr (hcap maxFee hmax))
  | none =>
    have hcap : ∀ maxFee, config.maxAnchorFeeSats = some maxFee → anchorFee rate ≤ maxFee := by
      intro maxFee hmax
      have hnot := Option.filter_eq_none_iff.mp hfilter maxFee hmax
      simpa using hnot
    cases hbalance : skippedReason.balanceReason config (wallet.fundEnv rate now write) with
    | some reason =>
      have hlow := not_not.mp (mt balanceReason_eq_none.mpr (by rw [hbalance]; simp))
      exact iff_of_true trivial (.inr (.inr ⟨hcap, .inl hlow⟩))
    | none =>
      have hrich := balanceReason_eq_none.mp hbalance
      simp only [iff_false_intro (not_lt_of_cap hcap), iff_false_intro hrich, iff_true_intro hcap, false_or,
        true_and]
      cases hfunded : ensureWalletFunded config (wallet.fundEnv rate now write) (anchorFee rate) with
      | error err =>
        refine refused_iff fun _ utxo hmem hspendable => ?_
        rw [ensureWalletFunded_eq_ok.mpr ⟨utxo, hmem, hspendable⟩] at hfunded
        cases hfunded
      | ok =>
        cases hunsigned : unsignedAnchor wallet.rpc (anchorFee rate) merkleRoot.val with
        | error err =>
          refine refused_iff fun hlow => ?_
          rcases unsignedAnchor_eq_error hunsigned with hnone | ⟨utxo, -, hspendable, hshort⟩
          · exact hnone
          · rw [spendable_of_le hlow] at hspendable
            obtain ⟨hpaid, hestimated⟩ := fees_of_le hlow
            omega
        | ok handed => exact handed_iff hunsigned hcap

section

/-- A calendar on mainnet, without a cap. -/
def liveConfig : AnchorConfig := ⟨false, 3600, 1000, none, 3600, none, none, false⟩

/-- A wallet with one output of a tenth of a bitcoin. -/
def tenthWallet : AnchorWallet where
  unspent := [⟨⟨Bytes32.replicate 0x0a, 0⟩, 10000000⟩]
  changeScript := 0x00 :: 0x14 :: List.replicate 20 0x0b
  sign tx := .ok ⟨true, .ok tx⟩
  send _ := .ok ""

def someRoot : Bytes32 := Bytes32.replicate 0x0c

/-- An empty wallet is rightly refused at one satoshi for a virtual byte. -/
theorem paysEstimate_empty :
    PaysEstimate liveConfig { tenthWallet with unspent := [] } 1000 0 (.ok ()) someRoot :=
  (paysEstimate_iff rfl).mpr (.inr (.inr ⟨by simp [liveConfig], .inr (by simp)⟩))

/-- At one satoshi for a virtual byte the wallet pays 250 000 satoshis in place of 1000. -/
theorem not_paysEstimate : ∃ utxo unsigned,
    payAnchor liveConfig (tenthWallet.fundEnv 1000 0 (.ok ())) tenthWallet.rpc someRoot.val =
      .handed utxo unsigned ∧
    utxo.amount.toNat = (unsigned.output.map (·.value.toNat)).sum + 250000 ∧
    estimatedFee 1000 = 1000 ∧ ¬PaysEstimate liveConfig tenthWallet 1000 0 (.ok ()) someRoot := by
  refine ⟨_, _, rfl, by decide, by decide, fun h => ?_⟩
  exact absurd h.2.2.1 (by decide)

end

end Lord.Calendar
