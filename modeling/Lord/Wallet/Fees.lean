import Mathlib.Data.Rat.Floor
import Mathlib.Data.NNRat.Defs
import Lord.Wallet.Stages

/-! The sizes that fees are paid for, and fees at a rational rate. -/

namespace Lord.Wallet

open Bitcoin Ots

/-! ### Rates -/

/-- A rate in satoshis for each virtual byte, rounded to the nearest satoshi. -/
def FeeRate.ofRate (rate : ℚ≥0) : FeeRate where
  fee vsize := min ⌊(rate : ℚ) * vsize + 1 / 2⌋₊ (2 ^ 64 - 1)
  fits vsize := by omega

/-- Larger sizes cost no less, and a part costs one satoshi more than its own fee at most. -/
structure FeeRate.Regular (feeRate : FeeRate) : Prop where
  mono : ∀ {a b : Nat}, a ≤ b → feeRate.fee a ≤ feeRate.fee b
  add_le : ∀ a b : Nat, feeRate.fee (a + b) ≤ feeRate.fee a + feeRate.fee b + 1

theorem FeeRate.regular_ofRate (rate : ℚ≥0) : (FeeRate.ofRate rate).Regular where
  mono := by
    intro a b hle
    have hrate : (0 : ℚ) ≤ rate := rate.2
    have hcast : (a : ℚ) ≤ b := Nat.cast_le.mpr hle
    have hfloor : ⌊(rate : ℚ) * a + 1 / 2⌋₊ ≤ ⌊(rate : ℚ) * b + 1 / 2⌋₊ :=
      Nat.floor_le_floor (by gcongr)
    show min _ _ ≤ min _ _
    omega
  add_le := by
    intro a b
    have hrate : (0 : ℚ) ≤ rate := rate.2
    have hfloor : ⌊(rate : ℚ) * (a + b : Nat) + 1 / 2⌋₊ ≤
        ⌊(rate : ℚ) * a + 1 / 2⌋₊ + ⌊(rate : ℚ) * b + 1 / 2⌋₊ + 1 := by
      have ha := Nat.lt_floor_add_one ((rate : ℚ) * a + 1 / 2)
      have hb := Nat.lt_floor_add_one ((rate : ℚ) * b + 1 / 2)
      have hpos : (0 : ℚ) ≤ (rate : ℚ) * (a + b : Nat) + 1 / 2 := by positivity
      rw [← Nat.lt_succ_iff, Nat.floor_lt hpos]
      push_cast
      linarith
    show min _ _ ≤ min _ _ + min _ _ + 1
    omega

namespace TransactionBuilder

/-! ### Sizes -/

/-- The size of a script behind its length. -/
def scriptSize (script : Bytes) : Nat := (serializeBytes script).length

theorem length_txOut (output : Output) : output.txOut.serialize.length = 8 + scriptSize output.scriptPubkey := by
  simp [TxOut.serialize, Output.txOut, scriptSize]

theorem length_input (witness : List Bytes) (outpoint : OutPoint) :
    (inputOf witness outpoint).serialize.length = 41 := by
  simp [TxIn.serialize, inputOf, OutPoint.serialize, serializeBytes, compactSize, outpoint.txid.2]

theorem length_flatMap_of_eq {α : Type} {f : α → Bytes} {size : Nat} {xs : List α}
    (h : ∀ x ∈ xs, (f x).length = size) : (xs.flatMap f).length = xs.length * size := by
  induction xs with
  | nil => simp
  | cons x rest ih =>
    rw [List.flatMap_cons, List.length_append, h x List.mem_cons_self,
      ih fun y hy => h y (List.mem_cons_of_mem _ hy), List.length_cons, Nat.add_mul, Nat.one_mul,
      Nat.add_comm]

/-- The sizes of the outputs. -/
def outputsSize (outputs : List Output) : Nat :=
  (outputs.map fun output => 8 + scriptSize output.scriptPubkey).sum

theorem length_outputs (outputs : List Output) :
    ((outputs.map Output.txOut).flatMap TxOut.serialize).length = outputsSize outputs := by
  induction outputs with
  | nil => rfl
  | cons output rest ih =>
    rw [List.map_cons, List.flatMap_cons, List.length_append, ih, length_txOut, outputsSize,
      outputsSize, List.map_cons, List.sum_cons]

/-- The size of a transaction whose inputs all have a signature. -/
theorem vsize_signed (inputs : List OutPoint) (outputs : List Output) :
    (Transaction.mk 2 0 (inputs.map (inputOf [signature])) (outputs.map Output.txOut)).vsize =
      (4 * (8 + (compactSize inputs.length).length + inputs.length * 41 +
        (compactSize outputs.length).length + outputsSize outputs) + 2 + inputs.length * 66 + 3) / 4 := by
  have hinputs : ((inputs.map (inputOf [signature])).flatMap TxIn.serialize).length =
      inputs.length * 41 := by
    rw [length_flatMap_of_eq fun input hinput => ?_, List.length_map]
    obtain ⟨outpoint, -, rfl⟩ := List.mem_map.mp hinput
    exact length_input _ _
  have hwitness : ((inputs.map (inputOf [signature])).flatMap
      fun input => serializeWitness input.witness).length = inputs.length * 66 := by
    rw [length_flatMap_of_eq fun input hinput => ?_, List.length_map]
    obtain ⟨outpoint, -, rfl⟩ := List.mem_map.mp hinput
    rfl
  have hsegwit : (Transaction.mk 2 0 (inputs.map (inputOf [signature]))
      (outputs.map Output.txOut)).usesSegwitSerialization = true := by
    cases inputs <;> rfl
  rw [Transaction.vsize, Transaction.weight, Transaction.serialize, if_pos hsegwit,
    Transaction.serializeBase, Transaction.serializeBody]
  simp only [List.length_append, hinputs, hwitness, length_outputs, List.length_map,
    LittleEndian.length_encode, List.length_cons, List.length_nil]
  omega

theorem estimateVbytesWith_eq (inputs : Nat) (outputs : List Output) :
    estimateVbytesWith inputs outputs =
      (4 * (8 + (compactSize inputs).length + inputs * 41 +
        (compactSize outputs.length).length + outputsSize outputs) + 2 + inputs * 66 + 3) / 4 := by
  rw [estimateVbytesWith, ← List.map_replicate, vsize_signed, List.length_replicate]

/-- The transaction has the size that its fee was estimated for. -/
theorem vsize_transaction (b : TransactionBuilder) :
    (b.transaction [signature]).vsize = b.estimateVbytes := by
  rw [transaction, vsize_signed, estimateVbytes, estimateVbytesWith_eq]

theorem estimateVbytesWith_congr {outputs outputs' : List Output} (inputs : Nat)
    (h : outputs.map Output.scriptPubkey = outputs'.map Output.scriptPubkey) :
    estimateVbytesWith inputs outputs = estimateVbytesWith inputs outputs' := by
  have hsize : ∀ outputs : List Output, outputsSize outputs =
      ((outputs.map Output.scriptPubkey).map fun script => 8 + scriptSize script).sum := by
    intro outputs
    rw [outputsSize, List.map_map]
    rfl
  have hlength : outputs.length = outputs'.length := by
    simpa using congrArg List.length h
  rw [estimateVbytesWith_eq, estimateVbytesWith_eq, hsize, hsize, h, hlength]

/-- An output more for a script of 34 bytes. -/
theorem estimateVbytesWith_concat (inputs : Nat) {outputs : List Output} {output : Output}
    (hfew : outputs.length < 100) (hscript : scriptSize output.scriptPubkey = 35) :
    estimateVbytesWith inputs (outputs ++ [output]) =
      estimateVbytesWith inputs outputs + additionalOutputVbytes := by
  have hone : ∀ n, n < 101 → (compactSize n).length = 1 := fun n hn => by
    rw [compactSize, if_pos (by omega)]
    rfl
  have hsize : outputsSize (outputs ++ [output]) = outputsSize outputs + 43 := by
    simp [outputsSize, hscript]
  rw [estimateVbytesWith_eq, estimateVbytesWith_eq, hsize, List.length_append, List.length_singleton,
    hone (outputs.length + 1) (by omega), hone outputs.length (by omega), additionalOutputVbytes]
  omega

theorem le_estimateVbytesWith {inputs : Nat} (h : 0 < inputs) (outputs : List Output) :
    additionalOutputVbytes ≤ estimateVbytesWith inputs outputs := by
  rw [estimateVbytesWith_eq, additionalOutputVbytes]
  omega

/-! ### Scripts -/

/-- `OP_PUSHNUM_1` and a push of 32 bytes. -/
def IsTaproot (script : Bytes) : Prop := ∃ key : Bytes32, script = 0x51 :: 0x20 :: key.val

theorem IsTaproot.scriptSize {script : Bytes} (h : IsTaproot script) : scriptSize script = 35 := by
  obtain ⟨⟨key, hkey⟩, rfl⟩ := h
  simp [TransactionBuilder.scriptSize, serializeBytes, compactSize, hkey]

theorem IsTaproot.minimalNonDust {script : Bytes} (h : IsTaproot script) :
    minimalNonDust script = 330 := by
  have hsize := h.scriptSize
  obtain ⟨⟨key, hkey⟩, rfl⟩ := h
  have hreturn : isOpReturn (0x51 :: 0x20 :: key) = false := rfl
  have hwitness : isWitnessProgram (0x51 :: 0x20 :: key) = true := by
    simp only [isWitnessProgram, witnessVersion, hkey]
    rfl
  rw [TransactionBuilder.scriptSize] at hsize
  rw [Bitcoin.minimalNonDust, hreturn, hwitness, hsize]
  rfl

theorem IsTaproot.not_opReturn {script : Bytes} (h : IsTaproot script) : isOpReturn script = false := by
  obtain ⟨key, rfl⟩ := h
  rfl

/-- The scripts of addresses are short. -/
theorem length_le_of_addressable {script : Bytes} (h : addressable script = .ok ()) :
    script.length ≤ 42 := by
  unfold addressable at h
  split at h
  · rename_i hlegacy
    simp only [isP2pkh, isP2sh, Bool.or_eq_true, Bool.and_eq_true, beq_iff_eq] at hlegacy
    omega
  · have hsome : witnessVersion script ≠ none := by
      intro hnone
      rw [hnone] at h
      cases h
    unfold witnessVersion at hsome
    split at hsome
    · split at hsome
      · rename_i hlength
        simp only [List.length_cons]
        omega
      · exact absurd rfl hsome
    · exact absurd rfl hsome

theorem minimalNonDust_le {script : Bytes} (h : script.length ≤ 42) : minimalNonDust script ≤ 600 := by
  have hsize : (serializeBytes script).length ≤ 43 := by
    rw [serializeBytes, compactSize, if_pos (by omega), List.length_append, List.length_singleton]
    omega
  unfold minimalNonDust
  split
  · omega
  · split <;> omega

theorem minimalNonDust_opReturn {script : Bytes} (h : isOpReturn script = true) :
    minimalNonDust script = 0 := by
  rw [minimalNonDust, if_pos h]

end TransactionBuilder

end Lord.Wallet
