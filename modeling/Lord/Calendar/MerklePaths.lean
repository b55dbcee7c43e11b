import Lord.Calendar.ConfirmedProof

/-! Where the paths of the two merkle trees lead: each climbs to the root of its tree, but the steps
that are built from the path of a transaction are executed from the root down. -/

namespace Lord.Ots

variable [Digests]

mutual

/-- The digest at the end of a chain of steps, along the first branch of each of them. -/
def Step.executed : Step → Bytes → Bytes
  | .mk (.op op) _ next, digest => executedList next (op.execute digest)
  | .mk _ _ next, digest => executedList next digest

def Step.executedList : List Step → Bytes → Bytes
  | [], digest => digest
  | child :: _, digest => child.executed digest

end

theorem Step.executedList_chain (entries : List (Op × Bytes)) (digest : Bytes) :
    executedList (chain entries []) digest = executeAll (entries.map Prod.fst) digest := by
  induction entries generalizing digest with
  | nil => rfl
  | cons entry rest ih =>
    rw [chain, executedList, executed, ih]
    rfl

end Lord.Ots

namespace Lord.Calendar

open Ots Ots.Step Merkle

section

variable [Digests]

/-! ### The paths -/

/-- Both paths of a leaf climb to the roots of their trees, with an entry for each level. -/
theorem merklePaths_climb {leaves : List Bytes} {index : Nat} {leaf : Bytes}
    (h : leaves[index]? = some leaf) :
    (∃ path, merklePath leaves index = some path ∧
      otsMerkleRoot leaves = some (path.foldl pathStep leaf) ∧
      path.length = (levels catSha256d leaves).length) ∧
    ∃ path, bitcoinTxMerklePath leaves index = some path ∧
      calculateRoot leaves = some (path.foldl blockPathStep leaf) ∧
      path.length = (levels bitcoinMerklePair leaves).length := by
  obtain ⟨hindex, -⟩ := List.getElem?_eq_some_iff.mp h
  constructor
  · refine ⟨merklePathLoop leaves index, if_neg (Nat.not_le_of_lt hindex), ?_, ?_⟩
    · have hne : ¬leaves.isEmpty = true := by
        rw [List.isEmpty_iff]
        rintro rfl
        cases h
      rw [otsMerkleRoot, if_neg hne, otsRootLoop_eq, merklePathLoop_eq hindex]
      exact climb_path catSha256d h
    · rw [merklePathLoop_eq hindex, length_path]
  · refine ⟨bitcoinPathLoop leaves index, if_neg (Nat.not_le_of_lt hindex), ?_, ?_⟩
    · rw [calculateRoot, bitcoinPathLoop_eq]
      exact climb_path bitcoinMerklePair h
    · rw [bitcoinPathLoop_eq, length_path]

/-! ### The steps of a transaction's path -/

/-- The steps that are built from the path of a transaction, executed from its id, end with the root. -/
def Replays (txids : List Bytes) (index : Nat) : Prop :=
  ∃ txid path step, txids[index]? = some txid ∧ bitcoinTxMerklePath txids index = some path ∧
    inclusionPathSteps txid path = .ok step ∧ calculateRoot txids = some (step.executed txid)

/-- The path climbs to the same node from the root down as from the transaction up. -/
def Mirrored (txids : List Bytes) (index : Nat) : Prop :=
  let path := bitcoinPathLoop txids index
  path.reverse.foldl blockPathStep (txids.getD index []) =
    path.foldl blockPathStep (txids.getD index [])

/-- The steps are executed from the root down. -/
theorem inclusionPathSteps_executed {path : List (Bool × Bytes)} (h : path ≠ []) (leaf : Bytes) :
    ∃ step, inclusionPathSteps leaf path = .ok step ∧
      step.executed leaf = path.reverse.foldl blockPathStep leaf := by
  obtain ⟨step, hhead, hchain⟩ := exists_isChain (inclusionEntries_ne_nil h leaf)
  refine ⟨step, ?_, ?_⟩
  · rw [inclusionPathSteps, if_neg (by simpa using h), nestInclusion_eq, hhead]
    rfl
  · rw [IsChain] at hchain
    have hend := executedList_chain (inclusionEntries path leaf) leaf
    rw [hchain, executedList, inclusionEntries_ops, executeAll_inclusion] at hend
    exact hend

theorem mirrored_of_two {txids : List Bytes} (h : txids.length = 2) (index : Nat) :
    Mirrored txids index := by
  have hone := (length_path_eq_one bitcoinMerklePair index).mpr h
  rw [← bitcoinPathLoop_eq] at hone
  obtain ⟨entry, hentry⟩ := List.length_eq_one_iff.mp hone
  rw [Mirrored, hentry]
  rfl

/-- A coincidence of hashes: the last strings that the two ways hash are different and collide, or the id
beside the transaction is itself a node further up. -/
def Coincidence (txids : List Bytes) (index : Nat) : Prop :=
  ∃ first mid last, bitcoinPathLoop txids index = first :: mid ++ [last] ∧
    let up := (first :: mid).foldl blockPathStep (txids.getD index [])
    let down := (last :: mid.reverse).foldl blockPathStep (txids.getD index [])
    ((pathOp last).execute up ≠ (pathOp first).execute down ∧
        blockPathStep up last = blockPathStep down first) ∨
      first.2 = last.2 ∨ first.2 = up

/-- Nothing else mirrors the path of three transactions or more. -/
theorem Mirrored.coincidence {txids : List Bytes} {index : Nat} (hlong : 2 < txids.length)
    (hindex : index < txids.length) (hlength : ∀ txid ∈ txids, txid.length = 32)
    (h : Mirrored txids index) : Coincidence txids index := by
  obtain ⟨first, mid, last, hpath, hends⟩ := bitcoinPathLoop_coincide hlong hindex hlength h
  refine ⟨first, mid, last, hpath, ?_⟩
  intro up down
  rcases hends with ⟨hne, hhash⟩ | hnode
  · refine .inl ⟨hne, ?_⟩
    rw [blockPathStep_eq, blockPathStep_eq]
    exact hhash
  · exact .inr hnode

/-- The steps of a transaction replay the tree exactly when there are two transactions, or more of them
with a path that is mirrored; and only a coincidence of hashes mirrors it then. -/
theorem inclusionSteps_replay_iff {txids : List Bytes} {index : Nat} (htwo : 2 ≤ txids.length)
    (hindex : index < txids.length) :
    (Replays txids index ↔ txids.length = 2 ∨ 2 < txids.length ∧ Mirrored txids index) ∧
      ((∀ txid ∈ txids, txid.length = 32) → 2 < txids.length → Mirrored txids index →
        Coincidence txids index) := by
  refine ⟨?_, fun hlength hlong hmirrored => hmirrored.coincidence hlong hindex hlength⟩
  have hleaf : txids[index]? = some (txids.getD index []) := by
    simp [hindex]
  have hpath : bitcoinTxMerklePath txids index = some (bitcoinPathLoop txids index) :=
    if_neg (Nat.not_le_of_lt hindex)
  have hroot : calculateRoot txids =
      some ((bitcoinPathLoop txids index).foldl blockPathStep (txids.getD index [])) := by
    rw [calculateRoot, bitcoinPathLoop_eq]
    exact climb_path bitcoinMerklePair hleaf
  have hne : bitcoinPathLoop txids index ≠ [] := by
    rw [bitcoinPathLoop_eq]
    exact path_ne_nil bitcoinMerklePair index (by omega)
  obtain ⟨step, hstep, hexecuted⟩ := inclusionPathSteps_executed hne (txids.getD index [])
  have hreplays : Replays txids index ↔ Mirrored txids index := by
    constructor
    · rintro ⟨txid, path, step', htxid, hpath', hstep', hroot'⟩
      cases hleaf.symm.trans htxid
      cases hpath.symm.trans hpath'
      cases hstep.symm.trans hstep'
      rw [Mirrored, ← hexecuted]
      exact Option.some.inj (hroot'.symm.trans hroot)
    · intro hmirrored
      refine ⟨_, _, step, hleaf, hpath, hstep, ?_⟩
      rw [hexecuted, hroot]
      exact congrArg some hmirrored.symm
  rw [hreplays]
  by_cases heq : txids.length = 2
  · exact iff_of_true (mirrored_of_two heq index) (.inl heq)
  · have hlong : 2 < txids.length := by omega
    simp only [heq, hlong, false_or, true_and]

end

/-! ### Trees of two and three transactions -/

section

attribute [local instance] Format.sha256Digests

theorem merklePaths_climb_three :
    ∃ path, merklePath [(repeatedDigest 7).val, (repeatedDigest 8).val, (repeatedDigest 9).val] 2 =
        some path ∧
      otsMerkleRoot [(repeatedDigest 7).val, (repeatedDigest 8).val, (repeatedDigest 9).val] =
        some (path.foldl pathStep (repeatedDigest 9).val) ∧
      path.length = 2 := by
  obtain ⟨⟨path, hpath, hroot, hlength⟩, -⟩ := merklePaths_climb
    (show [(repeatedDigest 7).val, (repeatedDigest 8).val, (repeatedDigest 9).val][2]? =
      some (repeatedDigest 9).val from rfl)
  refine ⟨path, hpath, hroot, ?_⟩
  rw [hlength, length_levels]
  rfl

theorem inclusionSteps_replay_two :
    Replays [(repeatedDigest 7).val, (repeatedDigest 8).val] 1 :=
  (inclusionSteps_replay_iff (by decide) (by decide)).1.mpr (.inl rfl)

/-- The steps of the first of three transactions end with another digest. -/
theorem not_inclusionSteps_replay :
    ¬Replays [(repeatedDigest 7).val, (repeatedDigest 8).val, (repeatedDigest 9).val] 0 := by
  rintro ⟨txid, path, step, htxid, hpath, hstep, hroot⟩
  cases htxid
  obtain rfl : path = [(true, (repeatedDigest 8).val),
      (true, bitcoinMerklePair (repeatedDigest 9).val (repeatedDigest 9).val)] := by
    rw [bitcoinTxMerklePath, if_neg (by decide), bitcoinPathLoop_eq] at hpath
    rw [← Option.some.inj hpath]
    simp [Merkle.path, nextLevel, sibling]
  obtain ⟨step', hstep', hexecuted⟩ := inclusionPathSteps_executed (List.cons_ne_nil _ _)
    (repeatedDigest 7).val
  cases hstep.symm.trans hstep'
  have htree : calculateRoot
      [(repeatedDigest 7).val, (repeatedDigest 8).val, (repeatedDigest 9).val] =
        some (bitcoinMerklePair (bitcoinMerklePair (repeatedDigest 7).val (repeatedDigest 8).val)
          (bitcoinMerklePair (repeatedDigest 9).val (repeatedDigest 9).val)) := by
    simp [calculateRoot, root, nextLevel]
  rw [hexecuted, htree] at hroot
  revert hroot
  decide +kernel

end

end Lord.Calendar
