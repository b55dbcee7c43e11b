import Lord.Index.Updater

/-! What makes a block valid for the index: its inputs are unspent outputs, no transaction creates
value beyond the subsidy, and no transaction id comes twice. -/

namespace Lord.Index

open Bitcoin Ordinals

abbrev UtxoSet := AList fun _ : OutPoint => TxOut

structure ChainState where
  height : Nat
  utxos : UtxoSet
  /-- The ids of all transactions so far. -/
  txids : List Bytes32
  /-- The value that the coinbases did not claim. -/
  unclaimed : Nat

def ChainState.genesis : ChainState := ⟨0, ∅, [], 0⟩

/-- The value of unspent outputs, and the outputs that stay unspent. -/
def spend (utxos : UtxoSet) : List OutPoint → Option (Nat × UtxoSet)
  | [] => some (0, utxos)
  | outpoint :: rest => do
    let output ← utxos.lookup outpoint
    let (value, utxos) ← spend (utxos.erase outpoint) rest
    some (output.value.toNat + value, utxos)

def outputsValue (outputs : List TxOut) : Nat := (outputs.map fun output => output.value.toNat).sum

def addOutputs (utxos : UtxoSet) (txid : Bytes32) (outputs : List TxOut) : UtxoSet :=
  outputs.zipIdx.foldl (fun utxos entry => utxos.insert ⟨txid, UInt32.ofNat entry.2⟩ entry.1) utxos

/-- The outputs of a transaction with a new id. -/
def create (s : ChainState) (tx : Transaction × Bytes32) : Option ChainState :=
  if tx.2 ∈ s.txids ∨ 2 ^ 32 ≤ tx.1.output.length then none
  else some { s with utxos := addOutputs s.utxos tx.2 tx.1.output, txids := tx.2 :: s.txids }

/-- A transaction other than the coinbase, and the fees with its own. -/
def applyTransaction (s : ChainState × Nat) (tx : Transaction × Bytes32) :
    Option (ChainState × Nat) := do
  let (value, utxos) ← spend s.1.utxos (tx.1.input.map TxIn.previousOutput)
  let created ← create { s.1 with utxos } tx
  if value < outputsValue tx.1.output then none
  else some (created, s.2 + (value - outputsValue tx.1.output))

/-- The coinbase claims the subsidy and the fees, or less.  Its outputs are spent in later blocks. -/
def applyCoinbase (s : ChainState × Nat) (tx : Transaction × Bytes32) : Option ChainState := do
  let created ← create s.1 tx
  let reward := Height.subsidy s.1.height + s.2
  if reward < outputsValue tx.1.output then none
  else some { created with unclaimed := s.1.unclaimed + (reward - outputsValue tx.1.output) }

def applyBlock (s : ChainState) (block : BlockData) : Option ChainState :=
  match block.txdata with
  | [] => none
  | coinbase :: rest => do
    let s ← rest.foldlM applyTransaction (s, 0)
    let s ← applyCoinbase s coinbase
    some { s with height := s.height + 1 }

/-- The state after a chain of blocks; there is none when a block is not valid. -/
def applyBlocks (blocks : List BlockData) : Option ChainState :=
  blocks.foldlM applyBlock ChainState.genesis

/-! ### What a valid block does -/

theorem create_eq_some {s s' : ChainState} {tx : Transaction × Bytes32} :
    create s tx = some s' ↔ tx.2 ∉ s.txids ∧ tx.1.output.length < 2 ^ 32 ∧
      s' = { s with utxos := addOutputs s.utxos tx.2 tx.1.output, txids := tx.2 :: s.txids } := by
  unfold create
  split
  · rename_i hbad
    refine iff_of_false (by simp) fun ⟨hnew, hlen, _⟩ => ?_
    rcases hbad with hbad | hbad
    · exact hnew hbad
    · omega
  · rename_i hgood
    rw [not_or, Nat.not_le] at hgood
    simp only [Option.some.injEq, hgood, not_false_eq_true, true_and, eq_comm]

theorem applyTransaction_eq_some {s s' : ChainState × Nat} {tx : Transaction × Bytes32} :
    applyTransaction s tx = some s' ↔ ∃ value utxos,
      spend s.1.utxos (tx.1.input.map TxIn.previousOutput) = some (value, utxos) ∧
      tx.2 ∉ s.1.txids ∧ tx.1.output.length < 2 ^ 32 ∧ outputsValue tx.1.output ≤ value ∧
      s' = ({ s.1 with
          utxos := addOutputs utxos tx.2 tx.1.output
          txids := tx.2 :: s.1.txids },
        s.2 + (value - outputsValue tx.1.output)) := by
  simp only [applyTransaction, Option.bind_eq_bind, Option.bind_eq_some_iff, Prod.exists,
    create_eq_some]
  constructor
  · rintro ⟨value, utxos, hspend, created, ⟨hnew, hlen, rfl⟩, hend⟩
    split at hend
    · cases hend
    · rename_i hvalue
      exact ⟨value, utxos, hspend, hnew, hlen, Nat.not_lt.mp hvalue, (Option.some.inj hend).symm⟩
  · rintro ⟨value, utxos, hspend, hnew, hlen, hvalue, rfl⟩
    exact ⟨value, utxos, hspend, _, ⟨hnew, hlen, rfl⟩, if_neg (Nat.not_lt.mpr hvalue)⟩

theorem applyCoinbase_eq_some {s : ChainState × Nat} {chain : ChainState}
    {tx : Transaction × Bytes32} :
    applyCoinbase s tx = some chain ↔ tx.2 ∉ s.1.txids ∧ tx.1.output.length < 2 ^ 32 ∧
      outputsValue tx.1.output ≤ Height.subsidy s.1.height + s.2 ∧
      chain = { s.1 with
        utxos := addOutputs s.1.utxos tx.2 tx.1.output
        txids := tx.2 :: s.1.txids
        unclaimed := s.1.unclaimed +
          (Height.subsidy s.1.height + s.2 - outputsValue tx.1.output) } := by
  simp only [applyCoinbase, Option.bind_eq_bind, Option.bind_eq_some_iff, create_eq_some]
  constructor
  · rintro ⟨created, ⟨hnew, hlen, rfl⟩, hend⟩
    split at hend
    · cases hend
    · rename_i hvalue
      exact ⟨hnew, hlen, Nat.not_lt.mp hvalue, (Option.some.inj hend).symm⟩
  · rintro ⟨hnew, hlen, hvalue, rfl⟩
    exact ⟨_, ⟨hnew, hlen, rfl⟩, if_neg (Nat.not_lt.mpr hvalue)⟩

theorem applyBlock_eq_some {s s' : ChainState} {block : BlockData} :
    applyBlock s block = some s' ↔ ∃ coinbase rest middle last, block.txdata = coinbase :: rest ∧
      rest.foldlM applyTransaction (s, 0) = some middle ∧
      applyCoinbase middle coinbase = some last ∧
      s' = { last with height := last.height + 1 } := by
  unfold applyBlock
  split
  · rename_i hnil
    simp [hnil]
  · rename_i coinbase rest hcons
    simp only [hcons, Option.bind_eq_bind, Option.bind_eq_some_iff, Option.some.injEq,
      List.cons.injEq]
    constructor
    · rintro ⟨middle, hrest, last, hlast, rfl⟩
      exact ⟨coinbase, rest, middle, last, ⟨rfl, rfl⟩, hrest, hlast, rfl⟩
    · rintro ⟨_, _, middle, last, ⟨rfl, rfl⟩, hrest, hlast, rfl⟩
      exact ⟨middle, hrest, last, hlast, rfl⟩

theorem height_foldlM {txs : List (Transaction × Bytes32)} {s s' : ChainState × Nat}
    (h : txs.foldlM applyTransaction s = some s') : s'.1.height = s.1.height := by
  induction txs generalizing s with
  | nil =>
    obtain rfl : s = s' := by simpa using h
    rfl
  | cons tx txs ih =>
    rw [List.foldlM_cons, Option.bind_eq_bind, Option.bind_eq_some_iff] at h
    obtain ⟨middle, hfirst, hrest⟩ := h
    obtain ⟨_, _, -, -, -, -, rfl⟩ := applyTransaction_eq_some.mp hfirst
    rw [ih hrest]

theorem height_applyCoinbase {s : ChainState × Nat} {chain : ChainState}
    {tx : Transaction × Bytes32} (h : applyCoinbase s tx = some chain) :
    chain.height = s.1.height := by
  obtain ⟨-, -, -, rfl⟩ := applyCoinbase_eq_some.mp h
  rfl

end Lord.Index
