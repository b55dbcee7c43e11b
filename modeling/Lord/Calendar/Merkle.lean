import Lord.Lib.Merkle
import Lord.Ots.Timestamp

/-! The merkle trees of the calendar: the tree over a batch of digests, and the tree over the
transactions of a Bitcoin block. -/

namespace Lord.Calendar

open Ots Merkle

variable [Digests]

/-- Double-SHA256 of concatenated digests. -/
def catSha256d (left right : Bytes) : Bytes :=
  Op.sha256.execute (Op.sha256.execute (left ++ right))

/-- Double-SHA256 of concatenated 32-byte digests (Bitcoin block merkle node). -/
def bitcoinMerklePair (left right : Bytes) : Bytes :=
  Digests.sha256 (Digests.sha256 (left ++ right))

omit [Digests] in
/-- A level with its last node once more when the number of nodes is odd. -/
def padLevel (level : List Bytes) : List Bytes :=
  if level.length % 2 = 1 then level ++ level.getLast?.toList else level

/-- `chunks(2)` of an even level, each chunk joined. -/
def joinChunks : List Bytes → List Bytes
  | left :: right :: rest => catSha256d left right :: joinChunks rest
  | _ => []

theorem joinChunks_padLevel (level : List Bytes) :
    joinChunks (padLevel level) = nextLevel catSha256d level := by
  fun_induction nextLevel catSha256d level with
  | case1 a b rest ih =>
    rw [← ih]
    unfold padLevel
    simp only [List.length_cons]
    by_cases hodd : rest.length % 2 = 1
    · have hne : rest ≠ [] := by
        rintro rfl
        cases hodd
      rw [if_pos (by omega), if_pos hodd]
      simp [joinChunks, List.getLast?_cons, List.getLast?_eq_some_getLast hne]
    · rw [if_neg (by omega), if_neg hodd]
      rfl
  | case2 a => rfl
  | case3 => rfl

/-- The levels of `ots_merkle_root`. -/
def otsRootLoop (level : List Bytes) : Option Bytes :=
  if 1 < level.length then otsRootLoop (joinChunks (padLevel level)) else level.head?
termination_by level.length
decreasing_by rw [joinChunks_padLevel, length_nextLevel]; omega

/-- Build an OTS-style merkle tree root over leaf digests. -/
def otsMerkleRoot (leaves : List Bytes) : Option Bytes :=
  if leaves.isEmpty then none else otsRootLoop leaves

/-- The levels of `merkle_path`. -/
def merklePathLoop (level : List Bytes) (index : Nat) : List (Bool × Bytes) :=
  if 1 < level.length then
    let siblingIndex := if index % 2 = 0 then index + 1 else index - 1
    (index % 2 == 0, (padLevel level).getD siblingIndex []) ::
      merklePathLoop (joinChunks (padLevel level)) (index / 2)
  else []
termination_by level.length
decreasing_by rw [joinChunks_padLevel, length_nextLevel]; omega

/-- OTS calendar merkle inclusion path for `index` (sibling digests left-to-right). -/
def merklePath (leaves : List Bytes) (index : Nat) : Option (List (Bool × Bytes)) :=
  if leaves.length ≤ index then none else some (merklePathLoop leaves index)

/-- The level above in a block: the right node of a pair is the last one at most. -/
def bitcoinNextLevel (level : List Bytes) : List Bytes :=
  (List.range ((level.length + 1) / 2)).map fun pairIndex =>
    bitcoinMerklePair (level.getD (pairIndex * 2) [])
      (level.getD (min (pairIndex * 2 + 1) (level.length - 1)) [])

/-- The levels of `bitcoin_tx_merkle_path`. -/
def bitcoinPathLoop (level : List Bytes) (index : Nat) : List (Bool × Bytes) :=
  if 1 < level.length then
    let siblingIndex :=
      if index % 2 = 0 then if index + 1 < level.length then index + 1 else index else index - 1
    (index % 2 == 0, level.getD siblingIndex []) ::
      bitcoinPathLoop (bitcoinNextLevel level) (index / 2)
  else []
termination_by level.length
decreasing_by simp only [bitcoinNextLevel, List.length_map, List.length_range]; omega

/-- Bitcoin block tx merkle path. -/
def bitcoinTxMerklePath (leaves : List Bytes) (index : Nat) : Option (List (Bool × Bytes)) :=
  if leaves.length ≤ index then none else some (bitcoinPathLoop leaves index)

/-- `bitcoin::merkle_tree::calculate_root`. -/
def calculateRoot (leaves : List Bytes) : Option Bytes := Merkle.root bitcoinMerklePair leaves

/-! ### The levels as levels of a tree -/

theorem bitcoinNextLevel_eq (level : List Bytes) :
    bitcoinNextLevel level = nextLevel bitcoinMerklePair level := by
  refine List.ext_getElem? fun k => ?_
  rw [getElem?_nextLevel, bitcoinNextLevel, List.getElem?_map]
  by_cases hk : k < (level.length + 1) / 2
  · have hleft : 2 * k < level.length := by omega
    rw [List.getElem?_range hk]
    simp only [Option.map_some, List.getElem?_eq_getElem hleft, List.getD_eq_getElem?_getD,
      Option.getD_some, Nat.mul_comm k 2]
    by_cases hright : 2 * k + 1 < level.length
    · rw [Nat.min_eq_left (by omega)]
      simp [hright]
    · rw [Nat.min_eq_right (by omega), show level.length - 1 = 2 * k by omega]
      simp [hright, hleft]
  · have hrange : (List.range ((level.length + 1) / 2))[k]? = none := by
      simpa using hk
    have hnone : level[2 * k]? = none := by
      rw [List.getElem?_eq_none_iff]
      omega
    rw [hrange, hnone]
    rfl

omit [Digests] in
theorem padLevel_getD_sibling {level : List Bytes} {index : Nat} (h : index < level.length) :
    (padLevel level).getD (if index % 2 = 0 then index + 1 else index - 1) [] =
      sibling level index := by
  unfold padLevel sibling
  by_cases heven : index % 2 = 0
  · rw [if_pos heven, if_pos heven]
    by_cases hnext : index + 1 < level.length
    · split <;> simp [hnext, List.getElem?_append_left]
    · -- The node is the last one of an odd level.
      have hlast : level.length = index + 1 := by omega
      have hne : level ≠ [] := by
        rintro rfl
        cases hlast
      rw [if_pos (by omega), List.getLast?_eq_some_getLast hne, List.getLast_eq_getElem]
      simp [hlast]
  · rw [if_neg heven, if_neg heven]
    have hleft : index - 1 < level.length := by omega
    split <;> simp [hleft, List.getElem?_append_left]

theorem merklePathLoop_eq {level : List Bytes} {index : Nat} (h : index < level.length) :
    merklePathLoop level index = path catSha256d level index := by
  fun_induction path catSha256d level index with
  | case1 level index hlong ih =>
    rw [merklePathLoop, if_pos hlong]
    dsimp only
    rw [padLevel_getD_sibling h, joinChunks_padLevel, ih (by rw [length_nextLevel]; omega)]
  | case2 level index hshort => rw [merklePathLoop, if_neg hshort]

theorem bitcoinPathLoop_eq (level : List Bytes) (index : Nat) :
    bitcoinPathLoop level index = path bitcoinMerklePair level index := by
  fun_induction path bitcoinMerklePair level index with
  | case1 level index hlong ih =>
    rw [bitcoinPathLoop, if_pos hlong, bitcoinNextLevel_eq, ih]
    dsimp only
    congr 2
    unfold sibling
    split
    · by_cases hnext : index + 1 < level.length
      · simp [hnext]
      · rw [if_neg hnext, List.getElem?_eq_none (by omega)]
        rfl
    · rfl
  | case2 level index hshort => rw [bitcoinPathLoop, if_neg hshort]

theorem otsRootLoop_eq (level : List Bytes) : otsRootLoop level = root catSha256d level := by
  fun_induction root catSha256d level with
  | case1 level hlong ih => rw [otsRootLoop, if_pos hlong, joinChunks_padLevel, ih]
  | case2 level hshort => rw [otsRootLoop, if_neg hshort]

end Lord.Calendar
