import Mathlib.Data.List.Shortlex
import Mathlib.Data.List.Induction

/-! Breadth-first search of a tree.  A node has an address, the index of a child at each level, and the
nodes are visited in the order of their addresses: the shorter first, and at one level from left to
right. -/

namespace Lord.BreadthFirst

/-- The order in which nodes are visited. -/
abbrev Before (a b : List Nat) : Prop := List.Shortlex (· < ·) a b

theorem Before.trans {a b c : List Nat} (hab : Before a b) (hbc : Before b c) : Before a c := by
  rw [Before, List.shortlex_def] at *
  rcases hab with hab | ⟨hab, hlex⟩
  · rcases hbc with hbc | ⟨hbc, -⟩ <;> left <;> omega
  · rcases hbc with hbc | ⟨hbc, hlex'⟩
    · left
      omega
    · exact .inr ⟨hab.trans hbc, List.lt_trans hlex hlex'⟩

theorem Before.irrefl (a : List Nat) : ¬Before a a := by
  rw [Before, List.shortlex_def]
  rintro (h | ⟨-, h⟩)
  · omega
  · exact List.lt_irrefl a h

theorem before_or_eq_or_after (a b : List Nat) : Before a b ∨ a = b ∨ Before b a := by
  simp only [Before, List.shortlex_def]
  rcases Nat.lt_trichotomy a.length b.length with h | h | h
  · exact .inl (.inl h)
  · rcases lt_trichotomy a b with hlt | heq | hgt
    · exact .inl (.inr ⟨h, hlt⟩)
    · exact .inr (.inl heq)
    · exact .inr (.inr (.inr ⟨h.symm, hgt⟩))
  · exact .inr (.inr (.inl h))

/-- Nothing stands before the root. -/
theorem not_before_nil (a : List Nat) : ¬Before a [] := List.not_shortlex_nil_right

theorem before_append {a : List Nat} (rest : List Nat) (h : rest ≠ []) : Before a (a ++ rest) := by
  have := List.length_pos_iff.mpr h
  exact .of_length_lt (by rw [List.length_append]; omega)

theorem lex_snoc {a b : List Nat} (hlength : a.length = b.length) (h : a < b) (i j : Nat) :
    a ++ [i] < b ++ [j] := by
  induction a generalizing b with
  | nil =>
    rw [List.eq_nil_of_length_eq_zero hlength.symm] at h
    exact absurd h (List.lt_irrefl [])
  | cons x rest ih =>
    cases b with
    | nil => cases hlength
    | cons y others =>
      rw [List.length_cons, List.length_cons] at hlength
      rw [List.cons_append, List.cons_append]
      rcases List.cons_lt_cons_iff.mp h with hlt | ⟨heq, hlt⟩
      · exact List.cons_lt_cons_iff.mpr (.inl hlt)
      · exact List.cons_lt_cons_iff.mpr (.inr ⟨heq, ih (by omega) hlt⟩)

/-- The children of a node stand before the children of a later one. -/
theorem Before.snoc {a b : List Nat} (h : Before a b) (i j : Nat) :
    Before (a ++ [i]) (b ++ [j]) := by
  rw [Before, List.shortlex_def] at *
  simp only [List.length_append, List.length_singleton]
  rcases h with h | ⟨h, hlex⟩
  · left
    omega
  · exact .inr ⟨by omega, lex_snoc h hlex i j⟩

theorem before_sibling {a : List Nat} {i j : Nat} (h : i < j) : Before (a ++ [i]) (a ++ [j]) :=
  List.Shortlex.append_left ((List.shortlex_singleton_iff i j).mpr h) a

section

variable {α : Type*} (children : α → List α) (root : α)

/-- The node at an address below the root. -/
def nodeAt (address : List Nat) : Option α :=
  address.foldl (fun node i => node.bind fun n => (children n)[i]?) (some root)

@[simp] theorem nodeAt_nil : nodeAt children root [] = some root := rfl

@[simp] theorem nodeAt_snoc (address : List Nat) (i : Nat) :
    nodeAt children root (address ++ [i]) =
      (nodeAt children root address).bind fun n => (children n)[i]? := by
  rw [nodeAt, List.foldl_append]
  rfl

theorem foldl_bind_none (address : List Nat) :
    address.foldl (fun node i => node.bind fun n => (children n)[i]?) (none : Option α) = none := by
  induction address with
  | nil => rfl
  | cons i rest ih => exact ih

theorem nodeAt_cons (i : Nat) (rest : List Nat) :
    nodeAt children root (i :: rest) =
      (children root)[i]?.bind fun child => nodeAt children child rest := by
  rw [nodeAt, List.foldl_cons]
  cases hchild : (children root)[i]? with
  | none => simp [hchild, foldl_bind_none]
  | some child => simp [hchild, nodeAt]

theorem nodeAt_append_none {address : List Nat} (h : nodeAt children root address = none)
    (rest : List Nat) : nodeAt children root (address ++ rest) = none := by
  induction rest using List.reverseRecOn with
  | nil => rwa [List.append_nil]
  | append_singleton rest i ih => rw [← List.append_assoc, nodeAt_snoc, ih]; rfl

variable (stop : α → Prop)

/-- The node at the address satisfies the predicate. -/
def Stops (address : List Nat) : Prop := ∃ node, nodeAt children root address = some node ∧ stop node

/-- The first address at which the predicate holds. -/
def IsFirst (address : List Nat) : Prop :=
  Stops children root stop address ∧
    ∀ other, Stops children root stop other → other = address ∨ Before address other

/-- The addresses in the queue of the search, none of which is visited: they stand in order, the
parent of each is visited and so before all of them, and the nodes that the search looks for stand
below them. -/
structure Frontier (queue : List (List Nat)) : Prop where
  sorted : queue.Pairwise Before
  parents : ∀ i a, a ++ [i] ∈ queue → ∀ b ∈ queue, Before a b
  covers : ∀ a, Stops children root stop a → ∃ b ∈ queue, b <+: a

variable {children root stop}

theorem IsFirst.unique {a b : List Nat} (ha : IsFirst children root stop a)
    (hb : IsFirst children root stop b) : a = b := by
  rcases ha.2 b hb.1 with heq | hab
  · exact heq.symm
  · rcases hb.2 a ha.1 with heq | hba
    · exact heq
    · exact absurd (hab.trans hba) (Before.irrefl a)

/-- Where the predicate holds at some address, it holds at a first one. -/
theorem exists_isFirst {address : List Nat} (h : Stops children root stop address) :
    ∃ first, IsFirst children root stop first := by
  obtain ⟨first, hfirst, hmin⟩ :=
    (List.Shortlex.wf (Nat.lt_wfRel.wf)).has_min {a | Stops children root stop a} ⟨address, h⟩
  refine ⟨first, hfirst, fun other hother => ?_⟩
  rcases before_or_eq_or_after other first with hbefore | heq | hafter
  · exact absurd hbefore (hmin other hother)
  · exact .inl heq
  · exact .inr hafter

theorem Frontier.start : Frontier children root stop [[]] where
  sorted := List.pairwise_singleton _ _
  parents := by simp
  covers := fun a _ => ⟨[], by simp, List.nil_prefix⟩

/-- Where the head of the queue is not looked for, its children go behind the rest. -/
theorem Frontier.step {head : List Nat} {rest : List (List Nat)} {node : α}
    (h : Frontier children root stop (head :: rest)) (hnode : nodeAt children root head = some node)
    (hstop : ¬stop node) :
    Frontier children root stop
      (rest ++ (List.range (children node).length).map fun i => head ++ [i]) := by
  have hhead : ∀ b ∈ rest, Before head b := (List.pairwise_cons.mp h.sorted).1
  have hrest : ∀ b ∈ rest, ∀ i, Before b (head ++ [i]) := by
    intro b hb i
    cases b using List.reverseRecOn with
    | nil => exact absurd (hhead _ hb) (not_before_nil head)
    | append_singleton a j =>
      have hparent := h.parents j a (List.mem_cons_of_mem _ hb) head List.mem_cons_self
      exact hparent.snoc j i
  refine ⟨?_, ?_, ?_⟩
  · rw [List.pairwise_append]
    refine ⟨(List.pairwise_cons.mp h.sorted).2, ?_, ?_⟩
    · rw [List.pairwise_map]
      exact List.pairwise_lt_range.imp before_sibling
    · intro b hb c hc
      obtain ⟨i, -, rfl⟩ := List.mem_map.mp hc
      exact hrest b hb i
  · intro i a ha b hb
    rcases List.mem_append.mp ha with ha | ha
    · have hbefore := h.parents i a (List.mem_cons_of_mem _ ha)
      rcases List.mem_append.mp hb with hb | hb
      · exact hbefore b (List.mem_cons_of_mem _ hb)
      · obtain ⟨j, -, rfl⟩ := List.mem_map.mp hb
        exact (hbefore head List.mem_cons_self).trans (before_append [j] (List.cons_ne_nil _ _))
    · obtain ⟨k, -, heq⟩ := List.mem_map.mp ha
      obtain ⟨rfl, -⟩ := List.append_inj' heq rfl
      rcases List.mem_append.mp hb with hb | hb
      · exact hhead b hb
      · obtain ⟨j, -, rfl⟩ := List.mem_map.mp hb
        exact before_append [j] (List.cons_ne_nil _ _)
  · intro a ha
    obtain ⟨b, hb, hbegin⟩ := h.covers a ha
    rcases List.mem_cons.mp hb with rfl | hb
    · obtain ⟨below, rfl⟩ := hbegin
      obtain ⟨found, hfound, hstops⟩ := ha
      cases below with
      | nil =>
        rw [List.append_nil, hnode] at hfound
        cases hfound
        exact absurd hstops hstop
      | cons i below =>
        have hlt : i < (children node).length := by
          by_contra hge
          have hnone : nodeAt children root (b ++ [i]) = none := by
            rw [nodeAt_snoc, hnode]
            exact List.getElem?_eq_none (by omega)
          rw [show b ++ i :: below = b ++ [i] ++ below by simp,
            nodeAt_append_none children root hnone] at hfound
          cases hfound
        exact ⟨b ++ [i], List.mem_append_right _
          (List.mem_map_of_mem (f := fun i => b ++ [i]) (List.mem_range.mpr hlt)), ⟨below, by simp⟩⟩
    · exact ⟨b, List.mem_append_left _ hb, hbegin⟩

/-- The head of the queue is the first address if it is one that is looked for. -/
theorem Frontier.first {head : List Nat} {rest : List (List Nat)}
    (h : Frontier children root stop (head :: rest)) (hstop : Stops children root stop head) :
    IsFirst children root stop head := by
  refine ⟨hstop, fun other hother => ?_⟩
  obtain ⟨b, hb, below, rfl⟩ := h.covers other hother
  have hle : b = head ∨ Before head b := by
    rcases List.mem_cons.mp hb with heq | hmem
    · exact .inl heq
    · exact .inr ((List.pairwise_cons.mp h.sorted).1 b hmem)
  rcases hle with rfl | hbefore
  · by_cases hnil : below = []
    · left
      rw [hnil, List.append_nil]
    · exact .inr (before_append below hnil)
  · exact .inr (hbefore.append_right below)

/-- There is nothing to find when the queue is empty. -/
theorem Frontier.not_stops (h : Frontier children root stop []) (address : List Nat) :
    ¬Stops children root stop address := by
  intro hstops
  obtain ⟨b, hb, -⟩ := h.covers address hstops
  cases hb

end

end Lord.BreadthFirst
