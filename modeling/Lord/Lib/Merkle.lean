import Mathlib.Algebra.Order.Ring.Nat
import Mathlib.Data.List.Basic
import Mathlib.Data.Nat.Log

/-! Merkle trees over any way to join two nodes: a level with an odd number of nodes pairs its last
node with itself.  The path of a leaf climbs to the root. -/

namespace Lord.Merkle

variable {α : Type*} (pair : α → α → α)

/-- The level above. -/
def nextLevel : List α → List α
  | a :: b :: rest => pair a b :: nextLevel rest
  | [a] => [pair a a]
  | [] => []

@[simp] theorem length_nextLevel (level : List α) :
    (nextLevel pair level).length = (level.length + 1) / 2 := by
  fun_induction nextLevel pair level with
  | case1 a b rest ih => simp only [List.length_cons, ih]; omega
  | case2 a => simp
  | case3 => simp

/-- A node above two nodes, or above the last node of an odd level. -/
theorem getElem?_nextLevel (level : List α) (k : Nat) :
    (nextLevel pair level)[k]? =
      level[2 * k]?.map fun a => pair a (level[2 * k + 1]?.getD a) := by
  fun_induction nextLevel pair level generalizing k with
  | case1 a b rest ih =>
    cases k with
    | zero => rfl
    | succ k =>
      rw [show 2 * (k + 1) = 2 * k + 1 + 1 by omega]
      simpa using ih k
  | case2 a =>
    cases k with
    | zero => rfl
    | succ k => simp
  | case3 => simp

/-- The root of a tree over these leaves. -/
def root (level : List α) : Option α :=
  if 1 < level.length then root (nextLevel pair level) else level.head?
termination_by level.length
decreasing_by rw [length_nextLevel]; omega

/-- The levels whose nodes are paired, from the leaves up. -/
def levels (level : List α) : List (List α) :=
  if 1 < level.length then level :: levels (nextLevel pair level) else []
termination_by level.length
decreasing_by rw [length_nextLevel]; omega

/-- A tree has as many levels above its leaves as it takes to halve their number down to one. -/
theorem length_levels (level : List α) :
    (levels pair level).length = Nat.clog 2 level.length := by
  fun_induction levels pair level with
  | case1 level hlong ih =>
    rw [List.length_cons, ih, length_nextLevel, Nat.clog_of_two_le (Nat.le_refl 2) hlong]
    rfl
  | case2 level hshort =>
    rw [Nat.clog_of_right_le_one (by omega)]
    rfl

/-- The node that a node is paired with. -/
def sibling [Inhabited α] (level : List α) (index : Nat) : α :=
  if index % 2 = 0 then level[index + 1]?.getD (level.getD index default)
  else level.getD (index - 1) default

/-- The path of a leaf: at each level, whether it is a left node, and its sibling. -/
def path [Inhabited α] (level : List α) (index : Nat) : List (Bool × α) :=
  if 1 < level.length then
    (index % 2 == 0, sibling level index) :: path (nextLevel pair level) (index / 2)
  else []
termination_by level.length
decreasing_by rw [length_nextLevel]; omega

/-- What holds of every join holds of the level above. -/
theorem nextLevel_holds {p : α → Prop} (hpair : ∀ a b, p (pair a b)) (level : List α) :
    ∀ a ∈ nextLevel pair level, p a := by
  fun_induction nextLevel pair level with
  | case1 a b rest ih =>
    intro node hnode
    rcases List.mem_cons.mp hnode with rfl | hnode
    · exact hpair a b
    · exact ih node hnode
  | case2 a =>
    intro node hnode
    rw [List.mem_singleton.mp hnode]
    exact hpair a a
  | case3 =>
    intro node hnode
    cases hnode

/-- What holds of the leaves and of every join holds of the root. -/
theorem root_holds {p : α → Prop} (hpair : ∀ a b, p (pair a b)) {level : List α}
    (hlevel : ∀ a ∈ level, p a) {node : α} (h : root pair level = some node) : p node := by
  fun_induction root pair level with
  | case1 level hlong ih => exact ih (nextLevel_holds pair hpair level) h
  | case2 level hshort => exact hlevel node (List.mem_of_mem_head? h)

/-- One level up. -/
def join (node : α) (step : Bool × α) : α :=
  if step.1 then pair node step.2 else pair step.2 node

def climb (leaf : α) (steps : List (Bool × α)) : α := steps.foldl (join pair) leaf

variable [Inhabited α]

/-- The node above a node joins it with its sibling. -/
theorem nextLevel_join {level : List α} {index : Nat} {node : α} (h : level[index]? = some node) :
    (nextLevel pair level)[index / 2]? =
      some (join pair node (index % 2 == 0, sibling level index)) := by
  rw [getElem?_nextLevel]
  by_cases heven : index % 2 = 0
  · rw [show 2 * (index / 2) = index by omega, h]
    simp [join, sibling, heven, h]
  · have hleft : index - 1 < level.length := by
      have := (List.getElem?_eq_some_iff.mp h).1
      omega
    rw [show 2 * (index / 2) = index - 1 by omega, show index - 1 + 1 = index by omega, h]
    simp [join, sibling, heven, hleft]

/-- The path of a leaf climbs to the root. -/
theorem climb_path {level : List α} {index : Nat} {leaf : α} (h : level[index]? = some leaf) :
    root pair level = some (climb pair leaf (path pair level index)) := by
  fun_induction root pair level generalizing index leaf with
  | case1 level hlong ih =>
    rw [path, if_pos hlong, ih (nextLevel_join pair h), climb, climb, List.foldl_cons]
  | case2 level hshort =>
    rw [path, if_neg hshort]
    have hlt := (List.getElem?_eq_some_iff.mp h).1
    obtain rfl : index = 0 := by omega
    rw [List.head?_eq_getElem?, h]
    rfl

/-- A path has an entry for each level that is paired. -/
theorem length_path (level : List α) (index : Nat) :
    (path pair level index).length = (levels pair level).length := by
  fun_induction path pair level index with
  | case1 level index hlong ih =>
    rw [levels, if_pos hlong, List.length_cons, List.length_cons, ih]
  | case2 level index hshort => rw [levels, if_neg hshort]; rfl

/-- What holds of the leaves and of every join holds of the siblings of a path. -/
theorem path_holds {p : α → Prop} (hpair : ∀ a b, p (pair a b)) {level : List α}
    (hlevel : ∀ a ∈ level, p a) {index : Nat} (h : index < level.length) :
    ∀ entry ∈ path pair level index, p entry.2 := by
  fun_induction path pair level index with
  | case1 level index hlong ih =>
    intro entry hentry
    rcases List.mem_cons.mp hentry with rfl | hentry
    · refine hlevel _ ?_
      dsimp only [sibling]
      split
      · cases hnext : level[index + 1]? with
        | none => simp [h]
        | some next => exact List.mem_of_getElem? hnext
      · have hleft : index - 1 < level.length := by omega
        simp [hleft]
    · refine ih (nextLevel_holds pair hpair level) ?_ entry hentry
      rw [length_nextLevel]
      omega
  | case2 level index hshort =>
    intro entry hentry
    cases hentry

theorem length_path_le {level : List α} (index : Nat) {depth : Nat}
    (h : level.length ≤ 2 ^ depth) : (path pair level index).length ≤ depth := by
  induction depth generalizing level index with
  | zero =>
    rw [path, if_neg (by simp at h; omega)]
    simp
  | succ depth ih =>
    rw [path]
    split
    · have hnext : (nextLevel pair level).length ≤ 2 ^ depth := by
        rw [length_nextLevel]
        omega
      have := ih (index / 2) hnext
      simpa using this
    · simp

theorem path_eq_nil {level : List α} (index : Nat) (h : level.length ≤ 1) :
    path pair level index = [] := by
  rw [path, if_neg (by omega)]

theorem path_ne_nil {level : List α} (index : Nat) (h : 1 < level.length) :
    path pair level index ≠ [] := by
  rw [path, if_pos h]
  exact List.cons_ne_nil _ _

/-- The only tree with one level of nodes above its leaves has two leaves. -/
theorem length_path_eq_one {level : List α} (index : Nat) :
    (path pair level index).length = 1 ↔ level.length = 2 := by
  rw [path]
  split
  · rename_i hlong
    by_cases htwo : level.length = 2
    · rw [path_eq_nil pair _ (by rw [length_nextLevel]; omega)]
      simp [htwo]
    · have hlong' : 1 < (nextLevel pair level).length := by
        rw [length_nextLevel]
        omega
      have hne := path_ne_nil pair (index / 2) hlong'
      have hpos := List.length_pos_iff.mpr hne
      simp only [List.length_cons]
      omega
  · simp only [List.length_nil]
    omega

end Lord.Merkle
