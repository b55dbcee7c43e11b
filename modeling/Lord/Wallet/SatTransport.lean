import Lord.Lib.Dealing
import Lord.Wallet.Stages

/-! Where the sats of a built transaction go. -/

namespace Lord.Wallet.TransactionBuilder

open Bitcoin Ots Dealing
open Index (SatPoint)

variable {b b' : TransactionBuilder}

/-! ### The statement -/

def spent (tx : Transaction) : List OutPoint := tx.input.map TxIn.previousOutput

def outputValues (tx : Transaction) : List Nat := tx.output.map fun output => output.value.toNat

/-- The position of a sat among the sats of the inputs. -/
def IsPosition (b : TransactionBuilder) (tx : Transaction) (satpoint : SatPoint) (position : Nat) :
    Prop :=
  ∃ i : Nat, (spent tx)[i]? = some satpoint.outpoint ∧
    position = start ((spent tx).map b.valueOf) i + satpoint.offset

/-- The inputs' sats are dealt to the outputs in order, and the rest is the fee. -/
structure Delivers (b : TransactionBuilder) (tx : Transaction) : Prop where
  distinct : (spent tx).Nodup
  spendable : ∀ outpoint ∈ spent tx, outpoint ≠ b.outgoing.outpoint →
    outpoint ∉ b.lockedUtxos ∧ outpoint ∉ b.runicUtxos ∧
      ∀ satpoint ∈ b.inscriptions, satpoint.outpoint ≠ outpoint
  /-- The outgoing sat is the first one of the only output of the recipient. -/
  recipient : ∃ k position, (∀ (j : Nat) output, tx.output[j]? = some output →
      (output.scriptPubkey = b.recipient ↔ j = k)) ∧
    IsPosition b tx b.outgoing position ∧ position = start (outputValues tx) k ∧
    Holds (outputValues tx) k position
  /-- Another inscription stays unspent or falls to a change output. -/
  inscribed : ∀ satpoint ∈ b.inscriptions, satpoint ≠ b.outgoing →
    satpoint.outpoint ∉ spent tx ∨
      ∃ position k output, IsPosition b tx satpoint position ∧ Holds (outputValues tx) k position ∧
        tx.output[k]? = some output ∧ output.scriptPubkey ≠ b.recipient ∧
        ∃ address ∈ b.changeAddresses, address.scriptPubkey = output.scriptPubkey

/-! ### The checks of the transaction -/

/-- The outgoing sat falls to an output of the recipient. -/
theorem checkRecipientOutput_eq_ok {recipient : Bytes} {satOffset outputEnd : Nat}
    {outputs : List Output} {u : Unit}
    (h : checkRecipientOutput recipient satOffset outputEnd outputs = .ok u)
    (hle : outputEnd ≤ satOffset) : ∃ (k : Nat) (output : Output), outputs[k]? = some output ∧
      output.scriptPubkey = recipient ∧
      Holds (outputs.map Output.value) k (satOffset - outputEnd) := by
  induction outputs generalizing outputEnd with
  | nil => cases h
  | cons output rest ih =>
    unfold checkRecipientOutput at h
    obtain ⟨next, hnext, h⟩ := bind_eq_ok.mp h
    obtain ⟨-, rfl⟩ := addU64_eq_ok.mp hnext
    split at h
    · rename_i hlt
      rw [assert_eq_ok, decide_eq_true_eq] at h
      refine ⟨0, output, rfl, h, output.value, rfl, Nat.zero_le _, ?_⟩
      rw [start_zero]
      omega
    · obtain ⟨k, found, hget, hrecipient, hholds⟩ := ih h (by omega)
      refine ⟨k + 1, found, hget, hrecipient, ?_⟩
      rw [show satOffset - outputEnd = output.value + (satOffset - (outputEnd + output.value)) by omega]
      exact holds_cons_succ hholds

/-- The recipient's output begins at the outgoing sat, and the others go to change addresses. -/
theorem checkOutputs_eq_ok {satOffset offset : Nat} {outputs : List Output} {u : Unit}
    (h : b.checkOutputs satOffset offset outputs = .ok u) {k : Nat} {output : Output}
    (hget : outputs[k]? = some output) : output.value < 2 ^ 64 ∧
      (output.scriptPubkey = b.recipient → offset + start (outputs.map Output.value) k = satOffset) ∧
      (output.scriptPubkey ≠ b.recipient →
        ∃ address ∈ b.changeAddresses, address.scriptPubkey = output.scriptPubkey) := by
  induction outputs generalizing offset k with
  | nil => cases hget
  | cons first rest ih =>
    unfold checkOutputs at h
    dsimp only at h
    -- both ways go on with the outputs behind
    split at h
    · rename_i hrecipient
      obtain ⟨⟨⟩, -, h⟩ := bind_eq_ok.mp h
      obtain ⟨⟨⟩, hfirst, h⟩ := bind_eq_ok.mp h
      obtain ⟨next, hnext, h⟩ := bind_eq_ok.mp h
      obtain ⟨hfits, rfl⟩ := addU64_eq_ok.mp hnext
      rw [assert_eq_ok, decide_eq_true_eq] at hfirst
      cases k with
      | zero =>
        cases hget
        exact ⟨by omega, fun _ => hfirst, fun hne => absurd hrecipient hne⟩
      | succ k =>
        obtain ⟨hvalue, hstart, hchange⟩ := ih h hget
        refine ⟨hvalue, fun heq => ?_, hchange⟩
        rw [List.map_cons, start_cons_succ, ← hstart heq]
        omega
    · rename_i hother
      obtain ⟨⟨⟩, haddress, h⟩ := bind_eq_ok.mp h
      obtain ⟨next, hnext, h⟩ := bind_eq_ok.mp h
      obtain ⟨hfits, rfl⟩ := addU64_eq_ok.mp hnext
      rw [assert_eq_ok, List.any_eq_true] at haddress
      cases k with
      | zero =>
        cases hget
        refine ⟨by omega, fun heq => absurd heq hother, fun _ => ?_⟩
        obtain ⟨address, hmem, heq⟩ := haddress
        exact ⟨address, hmem, of_decide_eq_true heq⟩
      | succ k =>
        obtain ⟨hvalue, hstart, hchange⟩ := ih h hget
        refine ⟨hvalue, fun heq => ?_, hchange⟩
        rw [List.map_cons, start_cons_succ, ← hstart heq]
        omega

theorem eq_of_length_filter {α : Type} {p : α → Bool} {xs : List α} (h : (xs.filter p).length = 1)
    {j k : Nat} {x y : α} (hx : xs[j]? = some x) (hpx : p x = true) (hy : xs[k]? = some y)
    (hpy : p y = true) : j = k := by
  induction xs generalizing j k with
  | nil => cases hx
  | cons first rest ih =>
    have hrest : ∀ {i : Nat} {z : α}, rest[i]? = some z → p z = true → p first = true → False := by
      intro i z hz hpz hfirst
      rw [List.filter_cons, if_pos hfirst, List.length_cons] at h
      have hpos := List.length_pos_of_mem
        (List.mem_filter.mpr ⟨List.mem_of_getElem? hz, hpz⟩)
      omega
    cases j with
    | zero =>
      cases k with
      | zero => rfl
      | succ k =>
        cases hx
        exact (hrest hy hpy hpx).elim
    | succ j =>
      cases k with
      | zero =>
        cases hy
        exact (hrest hx hpx hpy).elim
      | succ k =>
        have hfirst : ¬p first = true := hrest hx hpx
        rw [List.filter_cons, if_neg hfirst] at h
        exact congrArg (· + 1) (ih h hx hy)

/-- What the checks say of the transaction. -/
theorem build_eq_ok {tx : Transaction} (h : b.build = .ok tx) :
    tx = b.transaction [] ∧
      (b.outputs.filter fun output => output.scriptPubkey = b.recipient).length = 1 ∧
      ∃ message satOffset, b.satOffsetFrom message 0 b.inputs = .ok satOffset ∧
        checkRecipientOutput b.recipient satOffset 0 b.outputs = .ok () ∧
        b.checkOutputs satOffset 0 b.outputs = .ok () := by
  obtain ⟨⟨⟩, -, h⟩ := bind_eq_ok.mp h
  obtain ⟨⟨⟩, -, h⟩ := bind_eq_ok.mp h
  obtain ⟨satOffset, hsat, h⟩ := bind_eq_ok.mp h
  obtain ⟨⟨⟩, hfalls, h⟩ := bind_eq_ok.mp h
  obtain ⟨⟨⟩, honce, h⟩ := bind_eq_ok.mp h
  obtain ⟨⟨⟩, -, h⟩ := bind_eq_ok.mp h
  obtain ⟨⟨⟩, houtputs, h⟩ := bind_eq_ok.mp h
  obtain ⟨actualFee, -, h⟩ := bind_eq_ok.mp h
  obtain ⟨⟨⟩, -, h⟩ := bind_eq_ok.mp h
  obtain ⟨⟨⟩, -, h⟩ := bind_eq_ok.mp h
  rw [assert_eq_ok, decide_eq_true_eq] at honce
  exact ⟨(Except.ok.inj h).symm, honce, _, satOffset, hsat, hfalls, houtputs⟩

theorem isCardinal_iff {utxo : OutPoint} : b.isCardinal utxo = true ↔
    utxo ∉ b.lockedUtxos ∧ utxo ∉ b.runicUtxos ∧
      ∀ satpoint ∈ b.inscriptions, satpoint.outpoint ≠ utxo := by
  simp only [isCardinal, Bool.not_eq_true', Bool.or_eq_false_iff, decide_eq_false_iff_not,
    List.any_eq_false, decide_eq_true_eq, AList.mem_keys]
  constructor
  · rintro ⟨⟨hrunic, hinscribed⟩, hlocked⟩
    exact ⟨hlocked, hrunic, hinscribed⟩
  · rintro ⟨hlocked, hrunic, hinscribed⟩
    exact ⟨⟨hrunic, hinscribed⟩, hlocked⟩

theorem spent_transaction (witness : List Bytes) : spent (b.transaction witness) = b.inputs := by
  rw [spent, transaction, List.map_map]
  exact List.map_id _

theorem outputValues_transaction {witness : List Bytes}
    (h : ∀ output ∈ b.outputs, output.value < 2 ^ 64) :
    outputValues (b.transaction witness) = b.outputs.map Output.value := by
  rw [outputValues, transaction, List.map_map]
  exact List.map_congr_left fun output houtput => UInt64.toNat_ofNat_of_lt' (h output houtput)

/-- A transaction that passes the checks delivers the outgoing sat, when its other inputs are cardinal and
the other inscriptions of the outgoing output lie in front of that sat. -/
theorem delivers_of_build {b₀ : TransactionBuilder} {tx : Transaction} (hfixed : b.fixed = b₀.fixed)
    (hnodup : b.inputs.Nodup)
    (hcardinal : ∀ input ∈ b.inputs, input ≠ b₀.outgoing.outpoint → b₀.isCardinal input = true)
    (hbefore : ∀ satpoint ∈ b₀.inscriptions, satpoint.outpoint = b₀.outgoing.outpoint →
      satpoint ≠ b₀.outgoing → satpoint.offset < b₀.outgoing.offset)
    (h : b.build = .ok tx) : Delivers b₀ tx := by
  obtain ⟨rfl, honce, message, satOffset, hsat, hfalls, hchecked⟩ := build_eq_ok h
  obtain ⟨pads, adds, hinputs, -, hsat⟩ := satOffsetFrom_eq_ok hsat
  obtain ⟨k, output, hget, hrecipient, hholds⟩ := checkRecipientOutput_eq_ok hfalls (Nat.zero_le _)
  have hstart := (checkOutputs_eq_ok hchecked hget).2.1 hrecipient
  have hfits : ∀ output ∈ b.outputs, output.value < 2 ^ 64 := fun output houtput => by
    obtain ⟨j, hj⟩ := List.mem_iff_getElem?.mp houtput
    exact (checkOutputs_eq_ok hchecked hj).1
  have hvalues : outputValues (b.transaction []) = b.outputs.map Output.value :=
    outputValues_transaction hfits
  have houtgoing := outgoing_of_fixed hfixed
  have hsame := recipient_of_fixed hfixed
  have hchange : b.changeAddresses = b₀.changeAddresses :=
    show b.fixed.changeAddresses = b₀.fixed.changeAddresses from congrArg _ hfixed
  rw [Nat.sub_zero] at hholds
  rw [Nat.zero_add] at hstart hsat
  rw [houtgoing] at hinputs hsat
  rw [sumOf_of_fixed hfixed] at hsat
  have hposition : ∀ satpoint : SatPoint, satpoint.outpoint = b₀.outgoing.outpoint →
      IsPosition b₀ (b.transaction []) satpoint (b₀.sumOf pads + satpoint.offset) := by
    intro satpoint heq
    refine ⟨pads.length, ?_, ?_⟩
    · rw [spent_transaction, hinputs, heq, List.getElem?_append_right (le_refl _), Nat.sub_self]
      rfl
    · rw [spent_transaction, hinputs, start, List.map_append, List.take_left' (List.length_map _)]
      rfl
  have houtput : ∀ (j : Nat) txOut, (b.transaction []).output[j]? = some txOut →
      ∃ output, b.outputs[j]? = some output ∧ txOut.scriptPubkey = output.scriptPubkey := by
    intro j txOut hj
    rw [transaction, List.getElem?_map] at hj
    obtain ⟨output, hoj, rfl⟩ := Option.map_eq_some_iff.mp hj
    exact ⟨output, hoj, rfl⟩
  constructor
  · rw [spent_transaction]
    exact hnodup
  · intro outpoint hspent hne
    rw [spent_transaction] at hspent
    exact isCardinal_iff.mp (hcardinal outpoint hspent hne)
  · refine ⟨k, satOffset, fun j txOut hj => ?_, ?_, ?_, ?_⟩
    · obtain ⟨found, hfound, hscript⟩ := houtput j txOut hj
      rw [hscript, ← hsame]
      constructor
      · intro heq
        exact eq_of_length_filter honce hfound (decide_eq_true heq) hget (decide_eq_true hrecipient)
      · rintro rfl
        rw [hget] at hfound
        cases hfound
        exact hrecipient
    · rw [hsat]
      exact hposition b₀.outgoing rfl
    · rw [hvalues, hstart]
    · rw [hvalues]
      exact hholds
  · intro satpoint hinscribed hne
    by_cases hspent : satpoint.outpoint ∈ b.inputs
    · right
      have houtpoint : satpoint.outpoint = b₀.outgoing.outpoint := by
        by_contra hother
        exact (isCardinal_iff.mp (hcardinal _ hspent hother)).2.2 satpoint hinscribed rfl
      have hoffset := hbefore satpoint hinscribed houtpoint hne
      -- it lies in front of the recipient's output, so in an output before that
      obtain ⟨j, hlt, hholdsj⟩ := holds_of_lt_start
        (show b₀.sumOf pads + satpoint.offset < start (b.outputs.map Output.value) k by omega)
      obtain ⟨value, hvalue, -⟩ := id hholdsj
      rw [List.getElem?_map] at hvalue
      obtain ⟨found, hfound, rfl⟩ := Option.map_eq_some_iff.mp hvalue
      have hother : found.scriptPubkey ≠ b.recipient := fun heq =>
        absurd (eq_of_length_filter honce hfound (decide_eq_true heq) hget
          (decide_eq_true hrecipient)) hlt.ne
      refine ⟨_, j, found.txOut, hposition satpoint houtpoint, by rw [hvalues]; exact hholdsj, ?_, ?_, ?_⟩
      · rw [transaction, List.getElem?_map, hfound]
        rfl
      · rw [← hsame]
        exact hother
      · rw [← hchange]
        exact (checkOutputs_eq_ok hchecked hfound).2.2 hother
    · left
      rw [spent_transaction]
      exact hspent

/-- The builder of the last stage spends outputs of the wallet once each, and cardinal ones besides the
outgoing one. -/
theorem exists_build {outgoing : SatPoint}
    {inscriptions : AList fun _ : SatPoint => List InscriptionId}
    {amounts : AList fun _ : OutPoint => TxOut} {lockedUtxos runicUtxos : Finset OutPoint}
    {recipient : Bytes} {change : Address × Address} {feeRate : FeeRate} {target : Target}
    {network : Network} {tx : Transaction}
    (h : (new outgoing inscriptions amounts lockedUtxos runicUtxos recipient change feeRate target
      network).buildTransaction = .ok tx) :
    ∃ b : TransactionBuilder, b.fixed = (new outgoing inscriptions amounts lockedUtxos runicUtxos
        recipient change feeRate target network).fixed ∧ b.inputs.Nodup ∧
      (∀ input ∈ b.inputs, input ∈ amounts) ∧
      (∀ input ∈ b.inputs, input ≠ outgoing.outpoint → (new outgoing inscriptions amounts lockedUtxos
        runicUtxos recipient change feeRate target network).isCardinal input = true) ∧
      (∀ satpoint ∈ inscriptions, satpoint.outpoint = outgoing.outpoint → satpoint ≠ outgoing →
        satpoint.offset < outgoing.offset) ∧ b.build = .ok tx := by
  obtain ⟨b₁, b₂, b₃, b₄, b₅, b₆, hselect, halign, hpad, hadd, hstrip, hdeduct, hbuild⟩ :=
    buildTransaction_eq_ok h
  obtain ⟨-, -, ⟨dustLimit, hcheck⟩, -⟩ := selectOutgoing_eq_ok hselect
  obtain ⟨front, haligned⟩ := laid_of_align rfl rfl rfl hselect halign
  obtain ⟨pads, front', hpadded, -⟩ := haligned.pad hpad
  obtain ⟨adds, hadded, -⟩ := hpadded.add hadd
  obtain ⟨hstripFixed, hstripInputs⟩ := stripValue_eq_ok hstrip
  obtain ⟨hdeductFixed, hdeductInputs⟩ := deductFee_eq_ok hdeduct
  have hinputs : b₆.inputs = pads ++ outgoing.outpoint :: adds :=
    (hdeductInputs.trans hstripInputs).trans hadded.inputs
  refine ⟨b₆, hdeductFixed.trans (hstripFixed.trans hadded.fixed), ?_, fun input hinput => ?_,
    fun input hinput hne => ?_, fun satpoint hmem houtpoint hne => ?_, hbuild⟩
  · rw [hdeductInputs.trans hstripInputs]
    exact hadded.nodup
  · rw [hinputs, List.mem_append, List.mem_cons] at hinput
    rcases hinput with hinput | rfl | hinput
    · exact (hadded.cardinal input (List.mem_append_left _ hinput)).2
    · exact hadded.outgoing.1
    · exact (hadded.cardinal input (List.mem_append_right _ hinput)).2
  · rw [hinputs] at hinput
    refine (hadded.cardinal input ?_).1
    simp only [List.mem_append, List.mem_cons] at hinput ⊢
    tauto
  · obtain ⟨ids, hentry⟩ := Option.isSome_iff_exists.mp (AList.lookup_isSome.mpr hmem)
    have hoffset : satpoint.offset ≠ outgoing.offset := by
      intro heq
      obtain ⟨outpoint, offset⟩ := satpoint
      obtain rfl : outpoint = outgoing.outpoint := houtpoint
      obtain rfl : offset = outgoing.offset := heq
      exact hne rfl
    have hlimit := checkInscriptions_eq_ok hcheck
      (List.mem_reverse.mpr (AList.mem_lookup_iff.mp hentry)) houtpoint hoffset
    exact Nat.lt_of_le_of_ne (Nat.le_of_add_right_le hlimit) hoffset

/-- A transaction that the builder returns delivers the outgoing sat and nothing precious besides. -/
theorem buildTransaction_delivers {outgoing : SatPoint}
    {inscriptions : AList fun _ : SatPoint => List InscriptionId}
    {amounts : AList fun _ : OutPoint => TxOut} {lockedUtxos runicUtxos : Finset OutPoint}
    {recipient : Bytes} {change : Address × Address} {feeRate : FeeRate} {target : Target}
    {network : Network} {tx : Transaction}
    (h : (new outgoing inscriptions amounts lockedUtxos runicUtxos recipient change feeRate target
      network).buildTransaction = .ok tx) :
    Delivers (new outgoing inscriptions amounts lockedUtxos runicUtxos recipient change feeRate target
      network) tx := by
  obtain ⟨b, hfixed, hnodup, -, hcardinal, hbefore, hbuild⟩ := exists_build h
  exact delivers_of_build hfixed hnodup hcardinal hbefore hbuild

/-! ### A run -/

def exampleKey (byte : UInt8) : Bytes := 0x51 :: 0x20 :: List.replicate 32 byte

def exampleAddress (byte : UInt8) : Address := ⟨exampleKey byte, .mainnet, rfl⟩

def exampleOutPoint (byte : UInt8) : OutPoint := ⟨Bytes32.replicate byte, 0⟩

/-- One satoshi for each virtual byte. -/
def exampleFeeRate : FeeRate := ⟨fun vsize => min vsize (2 ^ 64 - 1), fun vsize => by omega⟩

/-- The outgoing sat is the second half of an output whose first half is inscribed as well, and the wallet
has a cardinal output and a locked one. -/
def exampleBuilder : TransactionBuilder :=
  new ⟨exampleOutPoint 1, 10000⟩
    [⟨⟨exampleOutPoint 1, 500⟩, [⟨(exampleOutPoint 1).txid, 0⟩]⟩,
      ⟨⟨exampleOutPoint 1, 10000⟩, [⟨(exampleOutPoint 1).txid, 1⟩]⟩].toAList
    [⟨exampleOutPoint 1, ⟨20000, []⟩⟩, ⟨exampleOutPoint 2, ⟨30000, []⟩⟩,
      ⟨exampleOutPoint 3, ⟨40000, []⟩⟩].toAList
    {exampleOutPoint 3} ∅ (exampleKey 3) (exampleAddress 1, exampleAddress 2)
    exampleFeeRate (.value 25000) .bitcoin

theorem buildTransaction_delivers_example :
    ∃ tx, exampleBuilder.buildTransaction = .ok tx ∧ Delivers exampleBuilder tx := by
  obtain ⟨tx, hbuild⟩ := exists_of_isOk
    (show exampleBuilder.buildTransaction.isOk = true by decide +kernel)
  exact ⟨tx, hbuild, buildTransaction_delivers hbuild⟩

end Lord.Wallet.TransactionBuilder
