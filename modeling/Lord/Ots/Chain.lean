import Lord.Ots.Codec

/-! Chains: operations one after another in front of what follows. -/

namespace Lord.Ots

namespace Step

/-- Operations with the outputs that they claim, in front of the steps that follow. -/
def chain : List (Op × Bytes) → List Step → List Step
  | [], next => next
  | (op, output) :: rest, next => [.mk (.op op) output (chain rest next)]

theorem chain_append (front back : List (Op × Bytes)) (next : List Step) :
    chain (front ++ back) next = chain front (chain back next) := by
  induction front with
  | nil => rfl
  | cons entry rest ih => rw [List.cons_append, chain, ih, chain]

/-- The first step of a chain in front of a last step. -/
def chainHead : List (Op × Bytes) → Step → Step
  | [], last => last
  | (op, output) :: rest, last => .mk (.op op) output [chainHead rest last]

theorem chain_eq (ops : List (Op × Bytes)) (last : Step) :
    chain ops [last] = [chainHead ops last] := by
  induction ops with
  | nil => rfl
  | cons entry rest ih => rw [chain, ih, chainHead]

theorem wellShapedList_chain {ops : List (Op × Bytes)} {last : Step} :
    wellShapedList (chain ops [last]) ↔
      (∀ entry ∈ ops, entry.1.WellFormed) ∧ last.WellShaped := by
  induction ops with
  | nil => simp [chain, wellShapedList]
  | cons entry rest ih =>
    have hlength : (chain rest [last]).length = 1 := by
      cases rest <;> rfl
    simp [chain, wellShapedList, WellShaped, hlength, ih, and_assoc]

theorem depthList_chain (ops : List (Op × Bytes)) (last : Step) :
    depthList (chain ops [last]) = ops.length + last.depth := by
  induction ops with
  | nil => simp [chain, depthList]
  | cons entry rest ih =>
    simp only [chain, depthList, depth, ih, List.length_cons]
    omega

end Step

/-- The digest after a list of operations. -/
def executeAll [Digests] (ops : List Op) (digest : Bytes) : Bytes :=
  ops.foldl (fun digest op => op.execute digest) digest

end Lord.Ots
