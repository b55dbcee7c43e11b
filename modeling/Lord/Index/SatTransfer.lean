import Lord.Index.IndexRuns
import Lord.Lib.Dealing

/-! The sats of a transaction are passed on in order: in every chain the ranges of its outputs are those
of its inputs, and no later block changes them. -/

namespace Lord.Index

open Bitcoin Ordinals

def outputValues (outputs : List TxOut) : List Nat := outputs.map fun output => output.value.toNat

/-- The outputs of a transaction hold the sats of its inputs, dealt in their order. -/
def Flows (ledger : Ledger) (tx : Transaction × Bytes32) : Prop :=
  ∀ k output i, tx.1.output[k]? = some output → i < output.value.toNat →
    (sats (ledger.ranges (outpointAt tx.2 k)))[i]? =
      (sats ((tx.1.input.map TxIn.previousOutput).flatMap ledger.ranges))[
        Dealing.start (outputValues tx.1.output) k + i]?

/-- The transactions of a block behind its coinbase. -/
def transfers (block : BlockData) : List (Transaction × Bytes32) := block.txdata.tail

/-! ### Ranges that stay as they are -/

/-- The outputs of known transactions have the same ranges in both ledgers, spent or not. -/
structure Kept (txids : List Bytes32) (ledger : Ledger) (txids' : List Bytes32) (ledger' : Ledger) :
    Prop where
  known : txids ⊆ txids'
  ranges : ∀ outpoint, outpoint.txid ∈ txids → ledger'.ranges outpoint = ledger.ranges outpoint

namespace Kept

variable {txids txids' txids'' : List Bytes32} {ledger ledger' ledger'' : Ledger}

theorem refl (txids : List Bytes32) (ledger : Ledger) : Kept txids ledger txids ledger :=
  ⟨List.Subset.refl _, fun _ _ => rfl⟩

theorem trans (h : Kept txids ledger txids' ledger') (h' : Kept txids' ledger' txids'' ledger'') :
    Kept txids ledger txids'' ledger'' :=
  ⟨List.Subset.trans h.known h'.known,
    fun outpoint hin => (h'.ranges outpoint (h.known hin)).trans (h.ranges outpoint hin)⟩

/-- Only the outputs of a new transaction get ranges. -/
theorem record {txid : Bytes32} (hnew : txid ∉ txids) {outs : List (List SatRange)}
    (hranges : ledger'.ranges = recordOutputs ledger.ranges txid outs) :
    Kept txids ledger (txid :: txids) ledger' := by
  refine ⟨List.subset_cons_self _ _, fun outpoint hin => ?_⟩
  rw [hranges]
  exact recordOutputs_of_ne fun heq => hnew (heq ▸ hin)

/-- Old transactions keep to the rule. -/
theorem flows (h : Kept txids ledger txids' ledger') {tx : Transaction × Bytes32} (hid : tx.2 ∈ txids)
    (hinputs : ∀ input ∈ tx.1.input, input.previousOutput.txid ∈ txids) (hflows : Flows ledger tx) :
    Flows ledger' tx := by
  intro k output i hget hi
  have hsame : (tx.1.input.map TxIn.previousOutput).flatMap ledger'.ranges =
      (tx.1.input.map TxIn.previousOutput).flatMap ledger.ranges := by
    refine List.flatMap_congr fun outpoint hin => ?_
    obtain ⟨input, hinput, rfl⟩ := List.mem_map.mp hin
    exact h.ranges _ (hinputs input hinput)
  rw [h.ranges (outpointAt tx.2 k) hid, hsame]
  exact hflows k output i hget hi

end Kept

/-! ### One transaction -/

theorem mem_of_spend {utxos utxos' : UtxoSet} {outpoints : List OutPoint} {value : Nat}
    (h : spend utxos outpoints = some (value, utxos')) : ∀ outpoint ∈ outpoints, outpoint ∈ utxos := by
  induction outpoints generalizing utxos value with
  | nil => exact fun _ hin => absurd hin List.not_mem_nil
  | cons first rest ih =>
    simp only [spend, Option.bind_eq_bind, Option.bind_eq_some_iff, Option.some.injEq, Prod.mk.injEq,
      Prod.exists] at h
    obtain ⟨output, hlookup, others, utxos', hrest, rfl, rfl⟩ := h
    intro outpoint hin
    rcases List.mem_cons.mp hin with rfl | hin
    · exact AList.lookup_isSome.mp (by rw [hlookup]; rfl)
    · exact (AList.mem_erase.mp (ih hrest outpoint hin)).2

/-- The assigned ranges follow the order of the inputs. -/
theorem Assigned.flows {txid : Bytes32} {outputs : List TxOut} {input : List SatRange}
    {rows rows' : SatTable} {outs : List (List SatRange)} {rest : List SatRange}
    (h : Assigned txid 0 outputs input rows outs rest rows') {k i : Nat} {output : TxOut}
    (hget : outputs[k]? = some output) (hi : i < output.value.toNat) :
    ∃ ranges, outs[k]? = some ranges ∧
      (Index.sats ranges)[i]? = (Index.sats input)[Dealing.start (outputValues outputs) k + i]? := by
  have hvalue := congrArg (fun values => values[k]?) h.values
  rw [List.getElem?_map, List.getElem?_map, hget] at hvalue
  obtain ⟨ranges, hranges, htotal⟩ := Option.map_eq_some_iff.mp hvalue
  have hlength : i < (Index.sats ranges).length := by
    rw [length_sats, htotal]
    exact hi
  have hlengths : (outs.map Index.sats).map List.length = outputValues outputs := by
    rw [List.map_map, outputValues, ← h.values]
    exact List.map_congr_left fun ranges _ => length_sats ranges
  have hpart : (outs.map Index.sats)[k]? = some (Index.sats ranges) := by
    rw [List.getElem?_map, hranges]
    rfl
  have hdealt := Dealing.getElem?_flatten hpart hlength
  rw [hlengths] at hdealt
  refine ⟨ranges, hranges, ?_⟩
  have hin : Dealing.start (outputValues outputs) k + i < (outs.flatMap Index.sats).length := by
    rw [List.flatMap_def]
    by_contra hout
    rw [List.getElem?_eq_none (Nat.not_lt.mp hout), List.getElem?_eq_getElem hlength] at hdealt
    cases hdealt
  rw [← h.sats, List.getElem?_append_left hin, List.flatMap_def, hdealt]

/-! ### Runs -/

/-- The transactions so far are known and keep to the rule. -/
structure Flowed (txs : List (Transaction × Bytes32)) (txids : List Bytes32) (ledger : Ledger) :
    Prop where
  known : ∀ tx ∈ txs, tx.2 ∈ txids
  inputs : ∀ tx ∈ txs, ∀ input ∈ tx.1.input, input.previousOutput.txid ∈ txids
  outputs : ∀ tx ∈ txs, tx.1.output.length < 2 ^ 32
  flows : ∀ tx ∈ txs, Flows ledger tx

theorem Flowed.keep {txs : List (Transaction × Bytes32)} {txids txids' : List Bytes32}
    {ledger ledger' : Ledger} (h : Flowed txs txids ledger) (hkept : Kept txids ledger txids' ledger') :
    Flowed txs txids' ledger' where
  known tx htx := hkept.known (h.known tx htx)
  inputs tx htx input hinput := hkept.known (h.inputs tx htx input hinput)
  outputs := h.outputs
  flows tx htx := hkept.flows (h.known tx htx) (h.inputs tx htx) (h.flows tx htx)

section Blocks

variable {s s' : ChainState × Nat} {l : Ledger × List SatRange} {tx : Transaction × Bytes32}
  (txs : List (Transaction × Bytes32))

/-- A valid transaction leaves the ranges of the others, and keeps to the rule. -/
theorem Pending.flowed (h : Pending s l) (happly : applyTransaction s tx = some s') :
    Kept s.1.txids l.1 s'.1.txids (ledgerTransaction l tx).1 ∧
      (Flowed txs s.1.txids l.1 → Flowed (txs ++ [tx]) s'.1.txids (ledgerTransaction l tx).1) := by
  obtain ⟨value, utxos, hspend, hnew, hlen, hvalue, rfl⟩ := applyTransaction_eq_some.mp happly
  obtain ⟨outs, leftover, rows, hassigned⟩ := h.assign hspend hvalue
  rw [ledgerTransaction_eq hassigned]
  have hkept : Kept s.1.txids l.1 (tx.2 :: s.1.txids)
      { l.1 with ranges := recordOutputs l.1.ranges tx.2 outs, rows } := .record hnew rfl
  have hinputs : ∀ input ∈ tx.1.input, input.previousOutput.txid ∈ s.1.txids := fun input hinput =>
    h.conserved.txids _ (mem_of_spend hspend _ (List.mem_map_of_mem hinput))
  refine ⟨hkept, fun hflowed => ?_⟩
  have hold := hflowed.keep hkept
  constructor
  · intro other hother
    rcases List.mem_append.mp hother with hother | hother
    · exact hold.known other hother
    · rw [List.mem_singleton.mp hother]
      exact List.mem_cons_self
  · intro other hother
    rcases List.mem_append.mp hother with hother | hother
    · exact hold.inputs other hother
    · rw [List.mem_singleton.mp hother]
      exact fun input hinput => List.mem_cons_of_mem _ (hinputs input hinput)
  · intro other hother
    rcases List.mem_append.mp hother with hother | hother
    · exact hold.outputs other hother
    · rw [List.mem_singleton.mp hother]
      exact hlen
  · intro other hother
    rcases List.mem_append.mp hother with hother | hother
    · exact hold.flows other hother
    · rw [List.mem_singleton.mp hother]
      intro k output i hget hi
      obtain ⟨ranges, hranges, hsats⟩ := hassigned.flows hget hi
      have hsame : (tx.1.input.map TxIn.previousOutput).flatMap
          (recordOutputs l.1.ranges tx.2 outs) =
            (tx.1.input.map TxIn.previousOutput).flatMap l.1.ranges := by
        refine List.flatMap_congr fun outpoint hin => ?_
        obtain ⟨input, hinput, rfl⟩ := List.mem_map.mp hin
        exact hkept.ranges _ (hinputs input hinput)
      have hk : k < 2 ^ 32 := by
        have := (List.getElem?_eq_some_iff.mp hget).1
        omega
      have hrecord : recordOutputs l.1.ranges tx.2 outs (outpointAt tx.2 k) = ranges := by
        have hown : (outpointAt tx.2 k).txid = tx.2 := rfl
        rw [recordOutputs_of_eq hown, vout_outpointAt tx.2 hk, List.getD_eq_getElem?_getD, hranges]
        rfl
      dsimp only
      rw [hsame, hrecord]
      exact hsats

/-- The coinbase leaves the ranges of the others. -/
theorem Pending.kept_coinbase (h : Pending s l) {chain : ChainState}
    (happly : applyCoinbase s tx = some chain) :
    Kept s.1.txids l.1 chain.txids (ledgerCoinbase l tx) := by
  obtain ⟨hnew, hlen, hvalue, rfl⟩ := applyCoinbase_eq_some.mp happly
  obtain ⟨outs, leftover, rows, hassigned⟩ := h.assign_coinbase hvalue
  rw [ledgerCoinbase_eq hassigned]
  exact .record hnew rfl

theorem flowed_foldl {rest : List (Transaction × Bytes32)} (h : Pending s l)
    (happly : rest.foldlM applyTransaction s = some s') :
    Kept s.1.txids l.1 s'.1.txids (rest.foldl ledgerTransaction l).1 ∧
      (Flowed txs s.1.txids l.1 →
        Flowed (txs ++ rest) s'.1.txids (rest.foldl ledgerTransaction l).1) := by
  induction rest generalizing s l txs with
  | nil =>
    obtain rfl : s = s' := by simpa using happly
    rw [List.append_nil]
    exact ⟨.refl _ _, id⟩
  | cons tx rest ih =>
    rw [List.foldlM_cons, Option.bind_eq_bind, Option.bind_eq_some_iff] at happly
    obtain ⟨middle, hfirst, hrest⟩ := happly
    obtain ⟨hkept, hflowed⟩ := h.flowed txs hfirst
    obtain ⟨hkept', hflowed'⟩ := ih (txs ++ [tx]) (h.transaction hfirst) hrest
    rw [List.append_assoc] at hflowed'
    exact ⟨hkept.trans hkept', fun hold => hflowed' (hflowed hold)⟩

/-- A valid block leaves the ranges of earlier transactions, and its own keep to the rule. -/
theorem Conserved.flowed {chain chain' : ChainState} {ledger : Ledger}
    (h : Conserved chain.height chain ledger []) {block : BlockData}
    (happly : applyBlock chain block = some chain') :
    Kept chain.txids ledger chain'.txids (ledgerBlock chain.height ledger block) ∧
      (Flowed txs chain.txids ledger →
        Flowed (txs ++ transfers block) chain'.txids (ledgerBlock chain.height ledger block)) := by
  obtain ⟨coinbase, rest, middle, last, hdata, hrest, hcoinbase, rfl⟩ :=
    applyBlock_eq_some.mp happly
  have hstart : Pending (chain, 0) (ledger, subsidyRanges chain.height) := ⟨h.mint, by simp⟩
  obtain ⟨hkept, hflowed⟩ := flowed_foldl txs hstart hrest
  have hlast := (pending_foldl hstart hrest).kept_coinbase hcoinbase
  rw [ledgerBlock, transfers, hdata]
  exact ⟨hkept.trans hlast, fun hold => (hflowed hold).keep hlast⟩

/-- The ledger of a valid chain, whose transfers keep to the rule. -/
structure Ordinal (blocks : List BlockData) (chain : ChainState) (ledger : Ledger) : Prop where
  conserved : Conserved chain.height chain ledger []
  flowed : Flowed (blocks.flatMap transfers) chain.txids ledger

theorem ordinal_blocks {blocks : List BlockData} {chain : ChainState}
    (h : applyBlocks blocks = some chain) :
    (ledgerBlocks blocks).1 = chain.height ∧ Ordinal blocks chain (ledgerBlocks blocks).2 := by
  induction blocks using List.reverseRecOn generalizing chain with
  | nil =>
    obtain rfl : ChainState.genesis = chain := by simpa [applyBlocks] using h
    exact ⟨rfl, Conserved.genesis, by simp, by simp, by simp, by simp⟩
  | append_singleton blocks block ih =>
    rw [applyBlocks_concat, Option.bind_eq_some_iff] at h
    obtain ⟨before, hbefore, happly⟩ := h
    obtain ⟨hheight, hconserved, hflowed⟩ := ih hbefore
    obtain ⟨-, hnext⟩ := hconserved.flowed (blocks.flatMap transfers) happly
    have hblock := hconserved.block happly
    rw [ledgerBlocks_concat, hheight]
    dsimp only
    refine ⟨?_, hblock, ?_⟩
    · obtain ⟨_, _, middle, last, _, hrest, hcoinbase, rfl⟩ := applyBlock_eq_some.mp happly
      dsimp only
      rw [height_applyCoinbase hcoinbase, height_foldlM hrest]
    · rw [List.flatMap_append, List.flatMap_cons, List.flatMap_nil, List.append_nil]
      exact hnext hflowed

/-- Later blocks leave the ranges of the transactions so far. -/
theorem kept_blocks {blocks later : List BlockData} {chain chain' : ChainState}
    (h : applyBlocks blocks = some chain) (h' : applyBlocks (blocks ++ later) = some chain') :
    Kept chain.txids (ledgerBlocks blocks).2 chain'.txids (ledgerBlocks (blocks ++ later)).2 := by
  induction later using List.reverseRecOn generalizing chain' with
  | nil =>
    rw [List.append_nil] at h' ⊢
    obtain rfl : chain = chain' := Option.some.inj (h.symm.trans h')
    exact .refl _ _
  | append_singleton later block ih =>
    rw [← List.append_assoc] at h' ⊢
    rw [applyBlocks_concat, Option.bind_eq_some_iff] at h'
    obtain ⟨before, hbefore, happly⟩ := h'
    obtain ⟨hheight, hordinal⟩ := ordinal_blocks hbefore
    rw [ledgerBlocks_concat, hheight]
    exact (ih hbefore).trans (hordinal.conserved.flowed [] happly).1

end Blocks

end Lord.Index
