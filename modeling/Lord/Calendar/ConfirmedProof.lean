import Lord.Calendar.PathNodes
import Lord.Commit.OtsAttest
import Lord.Ots.Format

/-! What a confirmed proof of the calendar verifies to.  The proof is a chain of operations; its path
through the batch joins without hashing, and its path through the block is in reverse. -/

namespace Lord.Calendar

open Ots Ots.Step Bitcoin Commit Merkle

section Chains

/-- The step is the first one of a chain of these operations. -/
def IsChain (entries : List (Op × Bytes)) (step : Step) : Prop := chain entries [] = [step]

theorem linkLast_chain (entries : List (Op × Bytes)) (tail : Step) :
    linkLast (chain entries []) tail = [chainHead entries tail] := by
  induction entries with
  | nil => rfl
  | cons entry rest ih => rw [chain, linkLast, linkSteps, ih, chainHead]

/-- A link to a chain comes behind its last step. -/
theorem IsChain.linkSteps_eq {entries : List (Op × Bytes)} {step : Step} (h : IsChain entries step)
    (tail : Step) : linkSteps step tail = chainHead entries tail := by
  have hlink := linkLast_chain entries tail
  rw [h] at hlink
  exact List.singleton_inj.mp hlink

theorem IsChain.linkSteps {front back : List (Op × Bytes)} {step tail : Step}
    (h : IsChain front step) (htail : IsChain back tail) :
    IsChain (front ++ back) (linkSteps step tail) := by
  rw [IsChain, chain_append, htail, chain_eq, h.linkSteps_eq]

variable [Digests]

/-- The recomputed chain verifies as the attestation at its end does, on the executed digest. -/
theorem verifyStep_chain (source : BlockHeaderSource) (entries : List (Op × Bytes))
    (attestation : Attestation) (output digest : Bytes) :
    verifyStep source
        ((chainHead entries (.mk (.attestation attestation) output [])).reexecute digest) digest =
      verifyAttestation (executeAll (entries.map Prod.fst) digest) attestation source := by
  induction entries generalizing digest with
  | nil => simp [chainHead, reexecute, verifyStep, executeAll]
  | cons entry rest ih =>
    simp only [chainHead, reexecute, reexecuteList, verifyStep, ne_eq, not_true_eq_false, if_false,
      ih]
    rfl

end Chains

section

variable [Digests]

/-! ### The chains of the builders -/

/-- The operations of a path with their outputs, where the last of the path comes first. -/
def nestEntries : List (Bool × Bytes) → Bytes → List (Op × Bytes)
  | [], _ => []
  | entry :: rest, current =>
    nestEntries rest (pathStep current entry) ++ [(pathOp entry, pathStep current entry)]

theorem nestPath_eq (path : List (Bool × Bytes)) (current : Bytes) (next : List Step) :
    nestPath path current next = chain (nestEntries path current) next := by
  induction path generalizing current next with
  | nil => rfl
  | cons entry rest ih => rw [nestPath, ih, nestEntries, chain_append]; rfl

theorem nestEntries_ops (path : List (Bool × Bytes)) (current : Bytes) :
    (nestEntries path current).map Prod.fst = path.reverse.map pathOp := by
  induction path generalizing current with
  | nil => rfl
  | cons entry rest ih => simp [nestEntries, ih]

/-- The first step has the output of the whole path. -/
theorem nestEntries_head {path : List (Bool × Bytes)} (h : path ≠ []) (current : Bytes) :
    ∃ op rest, nestEntries path current = (op, path.foldl pathStep current) :: rest := by
  induction path generalizing current with
  | nil => exact absurd rfl h
  | cons entry others ih =>
    cases others with
    | nil => exact ⟨pathOp entry, [], rfl⟩
    | cons second others =>
      obtain ⟨op, rest, heq⟩ := ih (List.cons_ne_nil _ _) (pathStep current entry)
      exact ⟨op, rest ++ [(pathOp entry, pathStep current entry)], by
        rw [nestEntries, heq]
        rfl⟩

/-- The operations of an inclusion path with their outputs, where the last of the path comes first. -/
def inclusionEntries : List (Bool × Bytes) → Bytes → List (Op × Bytes)
  | [], _ => []
  | entry :: rest, digest =>
    inclusionEntries rest
        (Op.sha256.execute (Op.sha256.execute ((pathOp entry).execute digest))) ++
      outputs [pathOp entry, .sha256, .sha256] digest

theorem nestInclusion_eq (path : List (Bool × Bytes)) (digest : Bytes) (childSteps : List Step) :
    nestInclusion path digest childSteps = chain (inclusionEntries path digest) childSteps := by
  induction path generalizing digest childSteps with
  | nil => rfl
  | cons entry rest ih => rw [nestInclusion, ih, inclusionEntries, chain_append]; rfl

theorem inclusionEntries_ops (path : List (Bool × Bytes)) (digest : Bytes) :
    (inclusionEntries path digest).map Prod.fst =
      path.reverse.flatMap fun entry => [pathOp entry, .sha256, .sha256] := by
  induction path generalizing digest with
  | nil => rfl
  | cons entry rest ih => simp [inclusionEntries, ih, outputs]

theorem inclusionEntries_ne_nil {path : List (Bool × Bytes)} (h : path ≠ []) (digest : Bytes) :
    inclusionEntries path digest ≠ [] := by
  cases path with
  | nil => exact absurd rfl h
  | cons entry rest => simp [inclusionEntries, outputs]

theorem outputs_ops (ops : List Op) (digest : Bytes) : (outputs ops digest).map Prod.fst = ops := by
  induction ops generalizing digest with
  | nil => rfl
  | cons op rest ih => rw [outputs, List.map_cons, ih]

/-! ### The anchor transaction -/

omit [Digests] in
/-- Bytes that occur are found, between what is in front of them and what is behind. -/
theorem windowPosition_of_infix {needle bytes : Bytes} (h : needle <:+: bytes) :
    ∃ pos, windowPosition needle bytes = some pos ∧
      bytes.take pos ++ needle ++ bytes.drop (pos + needle.length) = bytes := by
  obtain ⟨front, back, rfl⟩ := h
  have hfound : (windowPosition needle (front ++ needle ++ back)).isSome := by
    unfold windowPosition
    rw [if_neg (by simp; omega), List.find?_isSome]
    refine ⟨front.length, ?_, by simp⟩
    simp only [List.mem_range, List.length_append]
    omega
  obtain ⟨pos, hpos⟩ := Option.isSome_iff_exists.mp hfound
  refine ⟨pos, hpos, ?_⟩
  generalize front ++ needle ++ back = bytes at hpos
  unfold windowPosition at hpos
  split at hpos
  · cases hpos
  · have hwindow : (bytes.drop pos).take needle.length = needle := by
      simpa using List.find?_some hpos
    calc bytes.take pos ++ needle ++ bytes.drop (pos + needle.length)
        = bytes.take pos ++ ((bytes.drop pos).take needle.length ++
            (bytes.drop pos).drop needle.length) := by
          rw [hwindow, List.drop_drop, List.append_assoc]
      _ = bytes := by rw [List.take_append_drop, List.take_append_drop]

omit [Digests] in
/-- Without its witnesses a transaction with an input is serialized as its id is computed. -/
theorem txSerializedForTxid_eq {tx : Transaction} (h : tx.input ≠ []) :
    txSerializedForTxid tx = tx.serializeBase := by
  have hsegwit : Transaction.usesSegwitSerialization
      { tx with input := tx.input.map fun input => { input with witness := [] } } = false := by
    simp [Transaction.usesSegwitSerialization, h]
  have hinputs : (tx.input.map fun input => { input with witness := [] }).flatMap TxIn.serialize =
      tx.input.flatMap TxIn.serialize := by
    rw [List.flatMap_map]
    rfl
  rw [txSerializedForTxid, Transaction.serialize, hsegwit]
  simp [Transaction.serializeBase, Transaction.serializeBody, hinputs]

/-- The operations from the commitment to the id of the transaction. -/
def commitmentOps (commitment : Bytes) (tx : Transaction) : List Op :=
  let serialized := txSerializedForTxid tx
  let pos := (windowPosition commitment serialized).getD 0
  let front := serialized.take pos
  let back := serialized.drop (pos + commitment.length)
  (if front.isEmpty then [] else [Op.prepend front]) ++
    (if back.isEmpty then [] else [Op.append back]) ++ [.sha256, .sha256]

omit [Digests] in
theorem commitmentOps_ne_nil (commitment : Bytes) (tx : Transaction) :
    commitmentOps commitment tx ≠ [] := by
  simp [commitmentOps]

theorem executeAll_around (front back commitment : Bytes) :
    executeAll ((if front.isEmpty then [] else [Op.prepend front]) ++
        (if back.isEmpty then [] else [Op.append back]) ++ [.sha256, .sha256]) commitment =
      Digests.sha256 (Digests.sha256 (front ++ commitment ++ back)) := by
  cases front <;> cases back <;> simp [executeAll, Op.execute]

/-- The operations reach the id. -/
theorem executeAll_commitmentOps {commitment : Bytes} {tx : Transaction} (h : tx.input ≠ [])
    (hoccurs : commitment <:+: txSerializedForTxid tx) :
    executeAll (commitmentOps commitment tx) commitment = tx.computeTxid.val := by
  obtain ⟨pos, hpos, hbytes⟩ := windowPosition_of_infix hoccurs
  have hid : tx.computeTxid.val = Digests.sha256 (Digests.sha256 (txSerializedForTxid tx)) := by
    rw [txSerializedForTxid_eq h]
    rfl
  simp only [commitmentOps, hpos, Option.getD_some]
  rw [hid, executeAll_around, hbytes]

omit [Digests] in
theorem exists_isChain {entries : List (Op × Bytes)} (h : entries ≠ []) :
    ∃ step, (chain entries []).head? = some step ∧ IsChain entries step := by
  cases entries with
  | nil => exact absurd rfl h
  | cons entry rest => exact ⟨_, rfl, rfl⟩

theorem txCommitmentToTxidStep_ok {commitment : Bytes} {tx : Transaction} (h : tx.input ≠ [])
    (hoccurs : commitment <:+: txSerializedForTxid tx) :
    ∃ step, txCommitmentToTxidStep commitment tx = .ok step ∧
      IsChain (outputs (commitmentOps commitment tx) commitment) step := by
  obtain ⟨pos, hpos, -⟩ := windowPosition_of_infix hoccurs
  have hne : outputs (commitmentOps commitment tx) commitment ≠ [] := by
    intro hnil
    have hops := outputs_ops (commitmentOps commitment tx) commitment
    rw [hnil] at hops
    exact commitmentOps_ne_nil commitment tx hops.symm
  obtain ⟨step, hhead, hchain⟩ := exists_isChain hne
  refine ⟨step, ?_, hchain⟩
  have hreach := executeAll_commitmentOps h hoccurs
  simp only [commitmentOps, hpos, Option.getD_some] at hreach hhead
  simp only [txCommitmentToTxidStep, hpos, okOr, bind, Except.bind, hreach, ne_eq,
    not_true_eq_false, if_false, hhead]

/-! ### The block -/

/-- The ids of the transactions of a block. -/
def blockTxids (block : Block) : List Bytes := block.txdata.map fun tx => tx.computeTxid.val

/-- The index of the transaction in its block. -/
def blockIndex (tx : Transaction) (block : Block) : Nat :=
  (blockTxids block).findIdx fun txid => txid == tx.computeTxid.val

/-- The path of a transaction of a block. -/
def blockPath (tx : Transaction) (block : Block) : List (Bool × Bytes) :=
  bitcoinPathLoop (blockTxids block) (blockIndex tx block)

theorem blockPathStep_eq_join : blockPathStep = join bitcoinMerklePair := rfl

theorem blockIndex_lt {tx : Transaction} {block : Block} (hmem : tx ∈ block.txdata) :
    blockIndex tx block < (blockTxids block).length :=
  List.findIdx_lt_length_of_exists
    ⟨_, List.mem_map_of_mem (f := fun tx => tx.computeTxid.val) hmem, by simp⟩

/-- The path reaches the root over the ids, in its own order. -/
theorem blockPath_climbs {tx : Transaction} {block : Block} (hmem : tx ∈ block.txdata)
    (hroot : calculateRoot (blockTxids block) = some block.header.merkleRoot.val) :
    (blockPath tx block).foldl blockPathStep tx.computeTxid.val = block.header.merkleRoot.val := by
  have hleaf : (blockTxids block)[blockIndex tx block]? = some tx.computeTxid.val := by
    rw [List.getElem?_eq_getElem (blockIndex_lt hmem)]
    have hfound := @List.findIdx_getElem _ (fun txid => txid == tx.computeTxid.val) _
      (blockIndex_lt hmem)
    exact congrArg some (eq_of_beq hfound)
  have hpath := climb_path bitcoinMerklePair hleaf
  rw [← calculateRoot, hroot] at hpath
  rw [blockPath, bitcoinPathLoop_eq, blockPathStep_eq_join]
  exact (Option.some.inj hpath).symm

theorem blockMerklePathSteps_ok {tx : Transaction} {block : Block} (hmem : tx ∈ block.txdata)
    (hlong : 2 ≤ block.txdata.length)
    (hroot : calculateRoot (blockTxids block) = some block.header.merkleRoot.val) :
    ∃ step, blockMerklePathSteps tx.computeTxid.val block = .ok step ∧
      IsChain (inclusionEntries (blockPath tx block) tx.computeTxid.val) step := by
  have hclimb := blockPath_climbs hmem hroot
  have hne : blockPath tx block ≠ [] := by
    rw [blockPath, bitcoinPathLoop_eq]
    refine path_ne_nil _ _ ?_
    simp only [blockTxids, List.length_map]
    omega
  obtain ⟨step, hhead, hchain⟩ := exists_isChain (inclusionEntries_ne_nil hne tx.computeTxid.val)
  refine ⟨step, ?_, hchain⟩
  have hindex := blockIndex_lt hmem
  have hfind : (blockTxids block).findIdx? (fun txid => txid == tx.computeTxid.val) =
      some (blockIndex tx block) := by
    rw [List.findIdx?_eq_some_iff_findIdx_eq]
    exact ⟨hindex, rfl⟩
  have hpath : bitcoinTxMerklePath (blockTxids block) (blockIndex tx block) =
      some (blockPath tx block) := by
    rw [bitcoinTxMerklePath, if_neg (by omega)]
    rfl
  unfold blockMerklePathSteps
  rw [show (block.txdata.map fun tx => tx.computeTxid.val) = blockTxids block from rfl]
  simp only [hfind, hpath, okOr, bind, Except.bind, hclimb, ne_eq,
    not_true_eq_false, if_false, inclusionPathSteps, List.isEmpty_iff, hne, nestInclusion_eq, hhead]

/-! ### The batch -/

/-- The operations from the digest to the commitment, with the outputs that the builder writes. -/
def batchEntries (digest commitment : Bytes) (leaves : List Bytes) (index : Nat) :
    List (Op × Bytes) :=
  if digest = commitment then [] else nestEntries (merklePathLoop leaves index).reverse digest

/-- The path, read from the root down, reaches the commitment. -/
def BatchReaches (digest commitment : Bytes) (leaves : List Bytes) (index : Nat) : Prop :=
  digest ≠ commitment → (merklePathLoop leaves index).reverse.foldl pathStep digest = commitment

theorem merklePathSteps_ok (digest : Bytes) {leaves : List Bytes} {index : Nat}
    (h : index < leaves.length) (hne : merklePathLoop leaves index ≠ []) :
    ∃ step, merklePathSteps digest leaves index = .ok step ∧
      step.output = (merklePathLoop leaves index).reverse.foldl pathStep digest ∧
      IsChain (nestEntries (merklePathLoop leaves index).reverse digest) step := by
  obtain ⟨op, rest, hentries⟩ := nestEntries_head (List.reverse_ne_nil_iff.mpr hne) digest
  have hpath : merklePath leaves index = some (merklePathLoop leaves index) := by
    rw [merklePath, if_neg (by omega)]
  refine ⟨.mk (.op op) ((merklePathLoop leaves index).reverse.foldl pathStep digest) (chain rest []),
    ?_, rfl, ?_⟩
  · rw [merklePathSteps, hpath]
    show okOr (nestPath _ digest []).head? _ = _
    rw [nestPath_eq, hentries]
    rfl
  · rw [IsChain, hentries, chain]

/-- The steps to the transaction are built when the path read from the root down reaches the
commitment. -/
theorem stepsToTxid_ok {digest commitment : Bytes} {leaves : List Bytes} {index : Nat}
    {entries : List (Op × Bytes)} {txidStep : Step} (h : index < leaves.length)
    (hchain : IsChain entries txidStep) (hreach : BatchReaches digest commitment leaves index) :
    ∃ step, stepsToTxid digest commitment leaves index txidStep = .ok step ∧
      IsChain (batchEntries digest commitment leaves index ++ entries) step := by
  by_cases heq : digest = commitment
  · exact ⟨txidStep, by rw [stepsToTxid, if_pos heq], by rwa [batchEntries, if_pos heq]⟩
  · have hfold := hreach heq
    have hne : merklePathLoop leaves index ≠ [] := by
      intro hnil
      rw [hnil] at hfold
      exact heq hfold
    obtain ⟨merkle, hmerkle, houtput, hpath⟩ := merklePathSteps_ok digest h hne
    refine ⟨linkSteps merkle txidStep, ?_, ?_⟩
    · rw [stepsToTxid, if_neg heq, hmerkle]
      show (if merkle.output ≠ commitment then _ else _) = _
      rw [if_neg (by rw [houtput, hfold]; exact not_not.mpr rfl)]
    · rw [batchEntries, if_neg heq]
      exact hpath.linkSteps hchain

theorem batchReaches_of_stepsToTxid {digest commitment : Bytes} {leaves : List Bytes} {index : Nat}
    {txidStep step : Step} (h : index < leaves.length)
    (hsteps : stepsToTxid digest commitment leaves index txidStep = .ok step) :
    BatchReaches digest commitment leaves index := by
  intro heq
  rw [stepsToTxid, if_neg heq] at hsteps
  obtain ⟨merkle, hmerkle, hsteps⟩ := bind_eq_ok.mp hsteps
  split at hsteps
  · cases hsteps
  · rename_i houtput
    by_cases hnil : merklePathLoop leaves index = []
    · rw [merklePathSteps, merklePath, if_neg (by omega), hnil] at hmerkle
      cases hmerkle
    · obtain ⟨step, hstep, hfold, -⟩ := merklePathSteps_ok digest h hnil
      rw [hstep] at hmerkle
      cases hmerkle
      rw [← hfold]
      exact not_not.mp houtput

/-! ### The proof -/

/-- The operations of the proof, in their order: those of the batch do not hash, and those of the
block begin with the node below the root. -/
def proofOps (digest commitment : Bytes) (leaves : List Bytes) (index : Nat) (tx : Transaction)
    (block : Block) : List Op :=
  (if digest = commitment then [] else (merklePathLoop leaves index).map pathOp) ++
    commitmentOps commitment tx ++
    (blockPath tx block).reverse.flatMap fun entry => [pathOp entry, .sha256, .sha256]

/-- The crate's parser reads a chain of the operations: none has no data or too much of it, and they
are not too many. -/
def Readable (ops : List Op) : Prop := (∀ op ∈ ops, op.WellFormed) ∧ ops.length < recursionLimit

instance (ops : List Op) : Decidable (Readable ops) := inferInstanceAs (Decidable (_ ∧ _))

/-- The transaction carries the root of a batch, and its block stands in the best chain. -/
structure Anchored (source : BlockHeaderSource) (batch : List Bytes32) (commitment : Bytes)
    (tx : Transaction) (block : Block) (height : UInt32) : Prop where
  root : otsMerkleRoot (batch.map Subtype.val) = some commitment
  spends : tx.input ≠ []
  carries : commitment <:+: txSerializedForTxid tx
  mined : tx ∈ block.txdata
  notAlone : 2 ≤ block.txdata.length
  blockRoot : calculateRoot (blockTxids block) = some block.header.merkleRoot.val
  inChain : source.merkleRootAtHeight height = .ok (some block.header.merkleRoot)

/-- The proof is built, and what is read back of it is confirmed. -/
def Confirms [OtsCodec] (source : BlockHeaderSource) (batch : List Bytes32) (commitment : Bytes)
    (tx : Transaction) (block : Block) (height : UInt32) (digest : Bytes32) (index : Nat) : Prop :=
  ∃ proof file,
    bitcoinConfirmedProofBytes digest.val commitment (batch.map Subtype.val) index tx block height =
      .ok proof ∧
    OtsCodec.fromReader proof = .ok file ∧
    verifyTimestampAttestations file.timestamp source = .confirmed height

/-- The path through the batch reaches the commitment when it is read from the root down; and when
what the unhashed path makes stands in the transaction in the place of the commitment, the path
through the block, read from the root down, reaches the root. -/
def Reaches (batch : List Bytes32) (commitment : Bytes) (tx : Transaction) (block : Block)
    (digest : Bytes32) (index : Nat) : Prop :=
  BatchReaches digest.val commitment (batch.map Subtype.val) index ∧
    (blockPath tx block).reverse.foldl blockPathStep
      (executeAll (commitmentOps commitment tx)
        (if digest.val = commitment then digest.val
          else unhashed digest.val (merklePathLoop (batch.map Subtype.val) index))) =
      block.header.merkleRoot.val

theorem executeAll_append (front back : List Op) (digest : Bytes) :
    executeAll (front ++ back) digest = executeAll back (executeAll front digest) :=
  List.foldl_append

theorem executeAll_inclusion (path : List (Bool × Bytes)) (digest : Bytes) :
    executeAll (path.flatMap fun entry => [pathOp entry, .sha256, .sha256]) digest =
      path.foldl blockPathStep digest := by
  induction path generalizing digest with
  | nil => rfl
  | cons entry rest ih =>
    rw [List.flatMap_cons, executeAll_append, ih, List.foldl_cons]
    congr 1
    cases hside : entry.1 <;>
      simp [executeAll, pathOp, Op.execute, blockPathStep, bitcoinMerklePair, hside]

theorem executeAll_proofOps (digest commitment : Bytes) (leaves : List Bytes) (index : Nat)
    (tx : Transaction) (block : Block) :
    executeAll (proofOps digest commitment leaves index tx block) digest =
      (blockPath tx block).reverse.foldl blockPathStep
        (executeAll (commitmentOps commitment tx)
          (if digest = commitment then digest
            else unhashed digest (merklePathLoop leaves index))) := by
  rw [proofOps, executeAll_append, executeAll_append, executeAll_inclusion]
  by_cases heq : digest = commitment
  · rw [if_pos heq, if_pos heq]
    rfl
  · rw [if_neg heq, if_neg heq, unhashed]

theorem proofEntries_ops (digest commitment : Bytes) (leaves : List Bytes) (index : Nat)
    (tx : Transaction) (block : Block) :
    (batchEntries digest commitment leaves index ++ outputs (commitmentOps commitment tx) commitment ++
        inclusionEntries (blockPath tx block) tx.computeTxid.val).map Prod.fst =
      proofOps digest commitment leaves index tx block := by
  rw [List.map_append, List.map_append, outputs_ops, inclusionEntries_ops, batchEntries, proofOps]
  split <;> simp [nestEntries_ops]

variable [OtsCodec] [LawfulOtsCodec] {source : BlockHeaderSource} {batch : List Bytes32}
  {commitment : Bytes} {tx : Transaction} {block : Block} {height : UInt32}

/-- A chain of operations to an attestation is written and read back with its outputs computed. -/
theorem exists_serializeProof (digest : Bytes32) {entries : List (Op × Bytes)}
    (attestation : Attestation) (output : Bytes) (hreadable : Readable (entries.map Prod.fst))
    (hattestation : attestation.WellFormed) :
    ∃ proof, serializeProof ⟨.sha256, digest.val,
        chainHead entries (.mk (.attestation attestation) output [])⟩ = .ok proof ∧
      OtsCodec.fromReader proof = .ok ⟨.sha256, digest.val,
        (chainHead entries (.mk (.attestation attestation) output [])).reexecute digest.val⟩ := by
  have hshaped := @wellShapedList_chain entries (.mk (.attestation attestation) output [])
  have hdepth := depthList_chain entries (.mk (.attestation attestation) output [])
  rw [chain_eq] at hshaped hdepth
  simp only [wellShapedList, and_true, WellShaped] at hshaped
  simp only [depthList, depth] at hdepth
  have hwell := hshaped.mpr
    ⟨fun entry hentry => hreadable.1 entry.1 (List.mem_map_of_mem hentry), hattestation⟩
  have hlimit := hreadable.2
  rw [List.length_map] at hlimit
  have hread : (chainHead entries (.mk (.attestation attestation) output [])).depth ≤
      recursionLimit := by omega
  obtain ⟨bytes, hwrite, hread⟩ := LawfulOtsCodec.read_write
    ⟨.sha256, digest.val, chainHead entries (.mk (.attestation attestation) output [])⟩
    digest.property hwell hread
  exact ⟨bytes, by rw [serializeProof, hwrite], hread⟩

variable (source height) in
/-- What is read back of a chain to a Bitcoin attestation verifies as the digest that the operations
make. -/
theorem serializeProof_chain (digest : Bytes32) {entries : List (Op × Bytes)} (output : Bytes)
    (hreadable : Readable (entries.map Prod.fst)) :
    ∃ proof file, serializeProof ⟨.sha256, digest.val,
        chainHead entries (.mk (.attestation (.bitcoin height.toUInt64)) output [])⟩ = .ok proof ∧
      OtsCodec.fromReader proof = .ok file ∧
      verifyTimestampAttestations file.timestamp source =
        branchStatus (verifyAttestation (executeAll (entries.map Prod.fst) digest.val)
          (.bitcoin height.toUInt64) source) := by
  obtain ⟨proof, hwrite, hread⟩ := exists_serializeProof digest (.bitcoin height.toUInt64) output
    hreadable trivial
  refine ⟨proof, _, hwrite, hread, ?_⟩
  exact congrArg branchStatus (verifyStep_chain source entries _ output digest.val)

omit [Digests] [OtsCodec] [LawfulOtsCodec] in
/-- A digest is confirmed exactly when it is the root that the headers have at the height. -/
theorem verifyAttestation_inChain {root : Bytes32} {digest : Bytes}
    (h : source.merkleRootAtHeight height = .ok (some root)) :
    branchStatus (verifyAttestation digest (.bitcoin height.toUInt64) source) = .confirmed height ↔
      digest = root.val := by
  have htry : tryU32 height.toUInt64 = some height := by
    simp only [tryU32, UInt32.toNat_toUInt64, height.toNat_lt, if_true, UInt32.toUInt32_toUInt64]
  simp only [verifyAttestation, htry, h]
  by_cases heq : digest = root.val <;> simp [heq, branchStatus]

/-- The proof of a digest of the batch confirms when its operations reach the root of the block. -/
theorem confirms_iff_reaches (h : Anchored source batch commitment tx block height) {index : Nat}
    {digest : Bytes32} (hdigest : batch[index]? = some digest)
    (hreadable : Readable (proofOps digest.val commitment (batch.map Subtype.val) index tx block)) :
    Confirms source batch commitment tx block height digest index ↔
      Reaches batch commitment tx block digest index := by
  have hindex : index < (batch.map Subtype.val).length := by
    rw [List.length_map]
    exact (List.getElem?_eq_some_iff.mp hdigest).1
  obtain ⟨txidStep, htxid, hchain⟩ := txCommitmentToTxidStep_ok h.spends h.carries
  obtain ⟨blockStep, hblock, hpath⟩ := blockMerklePathSteps_ok h.mined h.notAlone h.blockRoot
  have hbuilt : BatchReaches digest.val commitment (batch.map Subtype.val) index →
      (Confirms source batch commitment tx block height digest index ↔
        Reaches batch commitment tx block digest index) := by
    intro hreach
    rw [Reaches, and_iff_right hreach]
    obtain ⟨firstStep, hfirst, hfront⟩ := stepsToTxid_ok hindex hchain hreach
    obtain ⟨entries, hops, hlinked⟩ : ∃ entries, entries.map Prod.fst =
        proofOps digest.val commitment (batch.map Subtype.val) index tx block ∧
        ∀ tail, linkSteps (linkSteps firstStep blockStep) tail = chainHead entries tail :=
      ⟨_, proofEntries_ops .., (hfront.linkSteps hpath).linkSteps_eq⟩
    have hproof : bitcoinConfirmedProofBytes digest.val commitment (batch.map Subtype.val) index tx
        block height = serializeProof ⟨.sha256, digest.val, chainHead entries
          (.mk (.attestation (.bitcoin height.toUInt64)) block.header.merkleRoot.val [])⟩ := by
      rw [bitcoinConfirmedProofBytes, htxid, ← hlinked]
      simp only [bind, Except.bind, hfirst, hblock]
    rw [← executeAll_proofOps, ← hops]
    rw [← hops] at hreadable
    obtain ⟨proof, file, hwrite, hread, hverify⟩ :=
      serializeProof_chain source height digest block.header.merkleRoot.val hreadable
    rw [← verifyAttestation_inChain h.inChain, ← hverify]
    constructor
    · rintro ⟨proof', file', hwrite', hread', hconfirmed⟩
      rw [hproof, hwrite] at hwrite'
      cases hwrite'
      rw [hread] at hread'
      cases hread'
      exact hconfirmed
    · exact fun hconfirmed => ⟨proof, file, hproof.trans hwrite, hread, hconfirmed⟩
  constructor
  · intro hconfirms
    obtain ⟨proof, file, hproof, -⟩ := id hconfirms
    obtain ⟨txidStep, -, hproof⟩ := bind_eq_ok.mp hproof
    obtain ⟨firstStep, hfirst, -⟩ := bind_eq_ok.mp hproof
    have hreach := batchReaches_of_stepsToTxid hindex hfirst
    exact (hbuilt hreach).mp hconfirms
  · exact fun hreaches => (hbuilt hreaches.1).mpr hreaches

omit [OtsCodec] [LawfulOtsCodec] in
/-- One digest is its own commitment, and the path through a block of two is one step. -/
theorem Anchored.reaches (h : Anchored source batch commitment tx block height)
    (hone : batch.length = 1) (htwo : block.txdata.length = 2) {index : Nat} {digest : Bytes32}
    (hdigest : batch[index]? = some digest) : Reaches batch commitment tx block digest index := by
  obtain ⟨only, rfl⟩ := List.length_eq_one_iff.mp hone
  obtain rfl : only = digest := by
    obtain ⟨hlt, hget⟩ := List.getElem?_eq_some_iff.mp hdigest
    simpa using hget
  have hcommitment : only.val = commitment := by
    have hroot := h.root
    rw [otsMerkleRoot, if_neg (by simp), otsRootLoop, if_neg (by simp)] at hroot
    exact Option.some.inj hroot
  have hpath : (blockPath tx block).length = 1 := by
    rw [blockPath, bitcoinPathLoop_eq, length_path_eq_one]
    simpa [blockTxids] using htwo
  obtain ⟨entry, hentry⟩ := List.length_eq_one_iff.mp hpath
  have hclimb := blockPath_climbs h.mined h.blockRoot
  refine ⟨fun hne => absurd hcommitment hne, ?_⟩
  rw [if_pos hcommitment, hcommitment, executeAll_commitmentOps h.spends h.carries]
  rw [hentry] at hclimb ⊢
  exact hclimb

/-! ### What else reaches the root -/

/-- The transaction as it is hashed, with these bytes in the place of the commitment. -/
def carrying (commitment : Bytes) (tx : Transaction) (bytes : Bytes) : Bytes :=
  let serialized := txSerializedForTxid tx
  let pos := (windowPosition commitment serialized).getD 0
  serialized.take pos ++ bytes ++ serialized.drop (pos + commitment.length)

/-- A coincidence of hashes: the digest is the root of its own batch; or the transaction with the
unhashed path in it collides with the transaction; or the two strings that are hashed to the root of a
block of two collide, or the two ways to the root of a larger block coincide. -/
def ProofCoincidence (batch : List Bytes32) (commitment : Bytes) (tx : Transaction) (block : Block)
    (digest : Bytes32) (index : Nat) : Prop :=
  let carried :=
    if digest.val = commitment then digest.val
    else unhashed digest.val (merklePathLoop (batch.map Subtype.val) index)
  let start := executeAll (commitmentOps commitment tx) carried
  let txid := tx.computeTxid.val
  (digest.val = commitment ∧ 2 ≤ batch.length) ∨
    Collide (carrying commitment tx carried) (txSerializedForTxid tx) ∨
    (∃ entry, blockPath tx block = [entry] ∧
      Collide ((pathOp entry).execute start) ((pathOp entry).execute txid)) ∨
    ∃ first mid last, blockPath tx block = first :: mid ++ [last] ∧
      EndsCoincide first last ((first :: mid).foldl blockPathStep txid)
        ((last :: mid.reverse).foldl blockPathStep start)

omit [Digests] [OtsCodec] [LawfulOtsCodec] in
theorem carrying_commitment (hoccurs : commitment <:+: txSerializedForTxid tx) :
    carrying commitment tx commitment = txSerializedForTxid tx := by
  obtain ⟨pos, hpos, hbytes⟩ := windowPosition_of_infix hoccurs
  simp only [carrying, hpos, Option.getD_some]
  exact hbytes

omit [Digests] [OtsCodec] [LawfulOtsCodec] in
theorem carrying_inj {left right : Bytes}
    (h : carrying commitment tx left = carrying commitment tx right) : left = right := by
  simp only [carrying, List.append_assoc] at h
  exact List.append_cancel_right (List.append_cancel_left h)

omit [OtsCodec] [LawfulOtsCodec] in
theorem executeAll_carrying (bytes : Bytes) :
    executeAll (commitmentOps commitment tx) bytes =
      Digests.sha256 (Digests.sha256 (carrying commitment tx bytes)) :=
  executeAll_around _ _ _

omit [OtsCodec] [LawfulOtsCodec] in
/-- Nothing but a coincidence confirms the proof in a larger batch or a larger block. -/
theorem Reaches.coincidence (h : Anchored source batch commitment tx block height) {index : Nat}
    {digest : Bytes32} (hdigest : batch[index]? = some digest)
    (hlarge : ¬(batch.length = 1 ∧ block.txdata.length = 2))
    (hreaches : Reaches batch commitment tx block digest index) :
    ProofCoincidence batch commitment tx block digest index := by
  obtain ⟨hindex, -⟩ := List.getElem?_eq_some_iff.mp hdigest
  have htxid := executeAll_commitmentOps h.spends h.carries
  have hup := blockPath_climbs h.mined h.blockRoot
  have hlength : (blockTxids block).length = block.txdata.length := List.length_map ..
  obtain ⟨-, hdown⟩ := hreaches
  rw [← hup] at hdown
  unfold ProofCoincidence
  extract_lets carried start txid
  change (blockPath tx block).reverse.foldl blockPathStep start = _ at hdown
  by_cases hblock : 2 < block.txdata.length
  · -- Whatever the block's path starts from, its two ways end at the root.
    have hnodes : ∀ id ∈ blockTxids block, id.length = 32 := by
      intro id hid
      obtain ⟨mined, -, rfl⟩ := List.mem_map.mp hid
      exact mined.computeTxid.property
    exact .inr (.inr (.inr (bitcoinPathLoop_coincide (by omega) (blockIndex_lt h.mined) hnodes hdown)))
  have htwo : block.txdata.length = 2 := by
    have := h.notAlone
    omega
  have hbatch : batch.length ≠ 1 := fun hone => hlarge ⟨hone, htwo⟩
  by_cases hroot : digest.val = commitment
  · refine .inl ⟨hroot, ?_⟩
    omega
  by_cases hstart : start = txid
  · refine .inr (.inl ⟨?_, ?_⟩)
    · rw [← carrying_commitment h.carries]
      intro hsame
      refine unhashed_ne_root h.root hindex hbatch digest ?_
      rw [← carrying_inj hsame]
      exact (if_neg hroot).symm
    · rw [← executeAll_carrying, ← carrying_commitment h.carries, ← executeAll_carrying, htxid]
      exact hstart
  · refine .inr (.inr (.inl ?_))
    have hone : (blockPath tx block).length = 1 := by
      rw [blockPath, bitcoinPathLoop_eq, length_path_eq_one]
      omega
    obtain ⟨entry, hentry⟩ := List.length_eq_one_iff.mp hone
    rw [hentry] at hdown
    refine ⟨entry, hentry, fun hsame => hstart (execute_pathOp_inj hsame), ?_⟩
    rw [← blockPathStep_eq, ← blockPathStep_eq]
    exact hdown

/-- The proof of a digest is confirmed when its batch has no other digest and its block one other
transaction, and else only if the misplaced paths happen to reach the root of the block; and only a
coincidence of hashes lets them. -/
theorem confirmedProof_iff (h : Anchored source batch commitment tx block height) (index : Nat)
    (digest : Bytes32) (hdigest : batch[index]? = some digest)
    (hreadable : Readable (proofOps digest.val commitment (batch.map Subtype.val) index tx block)) :
    (Confirms source batch commitment tx block height digest index ↔
      (batch.length = 1 ∧ block.txdata.length = 2) ∨
        (¬(batch.length = 1 ∧ block.txdata.length = 2) ∧
          Reaches batch commitment tx block digest index)) ∧
      (¬(batch.length = 1 ∧ block.txdata.length = 2) →
        Reaches batch commitment tx block digest index →
          ProofCoincidence batch commitment tx block digest index) := by
  refine ⟨?_, fun hlarge hreaches => hreaches.coincidence h hdigest hlarge⟩
  rw [confirms_iff_reaches h hdigest hreadable]
  by_cases hsmall : batch.length = 1 ∧ block.txdata.length = 2
  · simp only [hsmall, h.reaches hsmall.1 hsmall.2 hdigest, and_self, true_or]
  · simp only [hsmall, not_false_eq_true, true_and, false_or]

end

/-! ### A batch of one and a batch of two -/

section

attribute [local instance] Format.sha256Digests Format.sha256Codec

/-- The two digests of the examples. -/
def repeatedDigest (n : Nat) : Bytes32 := Bytes32.replicate (UInt8.ofNat n)

/-- A transaction with one input, and an output that carries the commitment. -/
def exampleAnchorTx (commitment : Bytes) : Transaction :=
  ⟨2, 0, [⟨.null, [], 0, []⟩], [⟨0, 0x6a :: 0x20 :: commitment⟩]⟩

/-- The transaction behind another one. -/
def exampleAnchorBlock (commitment : Bytes) : Block :=
  let coinbase := exampleAnchorTx []
  let tx := exampleAnchorTx commitment
  ⟨⟨4, repeatedDigest 0,
    ⟨bitcoinMerklePair coinbase.computeTxid.val tx.computeTxid.val, Digests.length_sha256 _⟩, 0, 0,
      0⟩, [coinbase, tx]⟩

def exampleHeaders (commitment : Bytes) : BlockHeaderSource :=
  ⟨fun height =>
    .ok (if height = 800000 then some (exampleAnchorBlock commitment).header.merkleRoot else none)⟩

theorem anchored_example {batch : List Bytes32} {commitment : Bytes}
    (hroot : otsMerkleRoot (batch.map Subtype.val) = some commitment) :
    Anchored (exampleHeaders commitment) batch commitment (exampleAnchorTx commitment)
      (exampleAnchorBlock commitment) 800000 where
  root := hroot
  spends := List.cons_ne_nil _ _
  carries := by
    refine ⟨LittleEndian.encode 4 2 ++ (compactSize 1 ++
      TxIn.serialize ⟨.null, [], 0, []⟩ ++ (compactSize 1 ++ (LittleEndian.encode 8 0 ++
        (compactSize (commitment.length + 2) ++ [0x6a, 0x20])))), LittleEndian.encode 4 0, ?_⟩
    rw [txSerializedForTxid_eq (List.cons_ne_nil _ _)]
    simp [Transaction.serializeBase, Transaction.serializeBody, exampleAnchorTx, TxOut.serialize,
      serializeBytes]
  mined := by simp [exampleAnchorBlock]
  notAlone := le_refl 2
  blockRoot := by
    simp [calculateRoot, blockTxids, exampleAnchorBlock, root, nextLevel]
  inChain := rfl

theorem blockPath_example {commitment : Bytes}
    (hne : (exampleAnchorTx []).computeTxid.val ≠ (exampleAnchorTx commitment).computeTxid.val) :
    blockPath (exampleAnchorTx commitment) (exampleAnchorBlock commitment) =
      [(false, (exampleAnchorTx []).computeTxid.val)] := by
  have hindex : blockIndex (exampleAnchorTx commitment) (exampleAnchorBlock commitment) = 1 := by
    simp [blockIndex, blockTxids, exampleAnchorBlock, List.findIdx_cons, beq_eq_false_iff_ne.mpr hne]
  rw [blockPath, hindex, bitcoinPathLoop_eq]
  simp [blockTxids, exampleAnchorBlock, path, nextLevel, sibling]

theorem confirmedProof_one : Confirms (exampleHeaders (repeatedDigest 7).val) [repeatedDigest 7]
    (repeatedDigest 7).val (exampleAnchorTx (repeatedDigest 7).val)
    (exampleAnchorBlock (repeatedDigest 7).val) 800000 (repeatedDigest 7) 0 := by
  have := Format.codec_lawful
  refine (confirmedProof_iff (anchored_example ?_) 0 (repeatedDigest 7) rfl ?_).1.mpr (.inl ⟨rfl, rfl⟩)
  · simp [otsMerkleRoot, otsRootLoop]
  · rw [proofOps, blockPath_example (by decide +kernel)]
    decide +kernel

/-- Neither digest of a batch of two is confirmed. -/
theorem confirmedProof_not_two : ¬Confirms
    (exampleHeaders (catSha256d (repeatedDigest 7).val (repeatedDigest 8).val))
    [repeatedDigest 7, repeatedDigest 8] (catSha256d (repeatedDigest 7).val (repeatedDigest 8).val)
    (exampleAnchorTx (catSha256d (repeatedDigest 7).val (repeatedDigest 8).val))
    (exampleAnchorBlock (catSha256d (repeatedDigest 7).val (repeatedDigest 8).val)) 800000
    (repeatedDigest 7) 0 := by
  have := Format.codec_lawful
  have hpath : merklePathLoop ([repeatedDigest 7, repeatedDigest 8].map Subtype.val) 0 =
      [(true, (repeatedDigest 8).val)] := by
    rw [merklePathLoop_eq (by decide)]
    simp [path, nextLevel, sibling]
  rw [confirms_iff_reaches (anchored_example ?_) rfl ?_, Reaches, BatchReaches,
    hpath, blockPath_example (by decide +kernel)]
  · decide +kernel
  · simp [otsMerkleRoot, otsRootLoop_eq, root, nextLevel]
  · rw [proofOps, hpath, blockPath_example (by decide +kernel)]
    decide +kernel

end

end Lord.Calendar
