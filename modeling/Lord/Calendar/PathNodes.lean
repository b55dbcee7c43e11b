import Lord.Calendar.Proof

/-! The nodes of the paths: digests of 32 bytes, which an unhashed path joins without end; and what two
ways through one path have in common when they reach one root. -/

namespace Lord.Calendar

open Ots Merkle Bitcoin

variable [Digests]

/-! ### The path through a batch -/

theorem length_catSha256d (left right : Bytes) : (catSha256d left right).length = 32 :=
  Digests.length_sha256 _

omit [Digests] in
theorem length_leaf {batch : List Bytes32} : ∀ leaf ∈ batch.map Subtype.val, leaf.length = 32 := by
  intro leaf hleaf
  obtain ⟨digest, -, rfl⟩ := List.mem_map.mp hleaf
  exact digest.property

/-- The siblings of a path are digests. -/
theorem length_sibling {batch : List Bytes32} {index : Nat} (h : index < batch.length) :
    ∀ entry ∈ merklePathLoop (batch.map Subtype.val) index, entry.2.length = 32 := by
  have hindex : index < (batch.map Subtype.val).length := by rwa [List.length_map]
  rw [merklePathLoop_eq hindex]
  exact path_holds (p := fun node => node.length = 32) catSha256d length_catSha256d length_leaf hindex

theorem length_otsMerkleRoot {batch : List Bytes32} {root : Bytes}
    (h : otsMerkleRoot (batch.map Subtype.val) = some root) : root.length = 32 := by
  unfold otsMerkleRoot at h
  split at h
  · cases h
  · rw [otsRootLoop_eq] at h
    exact root_holds (p := fun node => node.length = 32) catSha256d length_catSha256d length_leaf h

/-- What the operations of a path make of a digest: its siblings are joined, and nothing is hashed. -/
def unhashed (digest : Bytes) (path : List (Bool × Bytes)) : Bytes :=
  executeAll (path.map pathOp) digest

/-- Each sibling of an unhashed path makes the digest longer. -/
theorem length_unhashed {path : List (Bool × Bytes)} (h : ∀ entry ∈ path, entry.2.length = 32)
    (digest : Bytes) : (unhashed digest path).length = digest.length + 32 * path.length := by
  induction path generalizing digest with
  | nil => rfl
  | cons entry rest ih =>
    have hstep : ((pathOp entry).execute digest).length = digest.length + 32 := by
      have hsibling := h entry List.mem_cons_self
      cases hside : entry.1 <;> simp [pathOp, Op.execute, hside, hsibling, Nat.add_comm]
    have hrest := ih (fun other hother => h other (List.mem_cons_of_mem _ hother))
      ((pathOp entry).execute digest)
    rw [hstep] at hrest
    calc (unhashed digest (entry :: rest)).length
        = (unhashed ((pathOp entry).execute digest) rest).length := rfl
      _ = digest.length + 32 * (entry :: rest).length := by
        rw [hrest, List.length_cons]
        omega

/-- The path of a digest has no steps exactly when its batch has no other digest. -/
theorem merklePathLoop_eq_nil_iff {batch : List Bytes32} {index : Nat} (h : index < batch.length) :
    merklePathLoop (batch.map Subtype.val) index = [] ↔ batch.length = 1 := by
  have hindex : index < (batch.map Subtype.val).length := by rwa [List.length_map]
  rw [merklePathLoop_eq hindex]
  constructor
  · intro hnil
    by_contra hlong
    refine path_ne_nil catSha256d index ?_ hnil
    rw [List.length_map]
    omega
  · intro hone
    refine path_eq_nil catSha256d index ?_
    rw [List.length_map]
    omega

/-- Without its hashes the path of a larger batch does not reach the root. -/
theorem unhashed_ne_root {batch : List Bytes32} {root : Bytes} {index : Nat}
    (hroot : otsMerkleRoot (batch.map Subtype.val) = some root) (h : index < batch.length)
    (hlong : batch.length ≠ 1) (digest : Bytes32) :
    unhashed digest.val (merklePathLoop (batch.map Subtype.val) index) ≠ root := by
  intro heq
  have hlength := length_unhashed (length_sibling h) digest.val
  rw [heq, length_otsMerkleRoot hroot, digest.property] at hlength
  refine hlong ((merklePathLoop_eq_nil_iff h).mp ?_)
  rw [← List.length_eq_zero_iff]
  omega

/-! ### The path through a block -/

/-- Two different strings with one double hash. -/
def Collide (left right : Bytes) : Prop :=
  left ≠ right ∧ Digests.sha256 (Digests.sha256 left) = Digests.sha256 (Digests.sha256 right)

/-- A step hashes the string that its operation makes. -/
theorem blockPathStep_eq (digest : Bytes) (entry : Bool × Bytes) :
    blockPathStep digest entry = Digests.sha256 (Digests.sha256 ((pathOp entry).execute digest)) := by
  cases hside : entry.1 <;> simp [blockPathStep, bitcoinMerklePair, pathOp, Op.execute, hside]

theorem execute_pathOp_inj {entry : Bool × Bytes} {left right : Bytes}
    (h : (pathOp entry).execute left = (pathOp entry).execute right) : left = right := by
  unfold pathOp at h
  split at h
  · exact List.append_cancel_right h
  · exact List.append_cancel_left h

theorem length_foldl_blockPathStep {path : List (Bool × Bytes)} (h : path ≠ []) (leaf : Bytes) :
    (path.foldl blockPathStep leaf).length = 32 := by
  induction path generalizing leaf with
  | nil => exact absurd rfl h
  | cons entry rest ih =>
    cases rest with
    | nil =>
      rw [List.foldl_cons, List.foldl_nil, blockPathStep_eq]
      exact Digests.length_sha256 _
    | cons second rest => exact ih (List.cons_ne_nil _ _) _

/-- Two ways to one node, the one with `last` and the other with `first` as its last entry: the strings
that they hash there collide, or the sibling of the leaf is itself a node further up. -/
def EndsCoincide (first last : Bool × Bytes) (up down : Bytes) : Prop :=
  Collide ((pathOp last).execute up) ((pathOp first).execute down) ∨ first.2 = last.2 ∨ first.2 = up

/-- Where the strings do not collide they are one string, and so are the nodes that it joins. -/
theorem endsCoincide {first last : Bool × Bytes} {up down : Bytes} (hfirst : first.2.length = 32)
    (hlast : last.2.length = 32) (hup : up.length = 32) (hdown : down.length = 32)
    (h : blockPathStep up last = blockPathStep down first) : EndsCoincide first last up down := by
  by_cases hsame : (pathOp last).execute up = (pathOp first).execute down
  · refine .inr ?_
    unfold pathOp at hsame
    split at hsame <;> split at hsame
    · exact .inl (List.append_inj hsame (hup.trans hdown.symm)).2.symm
    · exact .inr (List.append_inj hsame (hup.trans hfirst.symm)).1.symm
    · exact .inr (List.append_inj hsame (hlast.trans hdown.symm)).2.symm
    · exact .inl (List.append_inj hsame (hlast.trans hfirst.symm)).1.symm
  · rw [blockPathStep_eq, blockPathStep_eq] at h
    exact .inl ⟨hsame, h⟩

/-- The path of three transactions or more has a first entry and another, last one. -/
theorem bitcoinPathLoop_ends {txids : List Bytes} (hlong : 2 < txids.length) (index : Nat) :
    ∃ first mid last, bitcoinPathLoop txids index = first :: mid ++ [last] := by
  have hne := path_ne_nil bitcoinMerklePair index (show 1 < txids.length by omega)
  have hone : (path bitcoinMerklePair txids index).length ≠ 1 :=
    (length_path_eq_one bitcoinMerklePair index).not.mpr (by omega)
  rw [← bitcoinPathLoop_eq] at hne hone
  cases hsplit : bitcoinPathLoop txids index with
  | nil => exact absurd hsplit hne
  | cons first rest =>
    rw [hsplit, List.length_cons] at hone
    have hrest : rest ≠ [] := by
      rintro rfl
      exact hone rfl
    exact ⟨first, rest.dropLast, rest.getLast hrest, by
      rw [List.cons_append, List.dropLast_append_getLast]⟩

/-- From the root down the path of three transactions or more reaches what it reaches from the
transaction up only where the two ways coincide. -/
theorem bitcoinPathLoop_coincide {txids : List Bytes} {index : Nat} (hlong : 2 < txids.length)
    (hindex : index < txids.length) (hlength : ∀ txid ∈ txids, txid.length = 32) {start txid : Bytes}
    (h : (bitcoinPathLoop txids index).reverse.foldl blockPathStep start =
      (bitcoinPathLoop txids index).foldl blockPathStep txid) :
    ∃ first mid last, bitcoinPathLoop txids index = first :: mid ++ [last] ∧
      EndsCoincide first last ((first :: mid).foldl blockPathStep txid)
        ((last :: mid.reverse).foldl blockPathStep start) := by
  obtain ⟨first, mid, last, hpath⟩ := bitcoinPathLoop_ends hlong index
  refine ⟨first, mid, last, hpath, ?_⟩
  have hsiblings : ∀ entry ∈ first :: mid ++ [last], entry.2.length = 32 := by
    rw [← hpath, bitcoinPathLoop_eq]
    exact path_holds (p := fun node => node.length = 32) bitcoinMerklePair
      (fun _ _ => Digests.length_sha256 _) hlength hindex
  have hreverse : (first :: mid ++ [last]).reverse = last :: mid.reverse ++ [first] := by simp
  rw [hpath, hreverse, List.foldl_append, List.foldl_append] at h
  exact endsCoincide (hsiblings first (by simp)) (hsiblings last (by simp))
    (length_foldl_blockPathStep (List.cons_ne_nil _ _) txid)
    (length_foldl_blockPathStep (List.cons_ne_nil _ _) start) h.symm

end Lord.Calendar
