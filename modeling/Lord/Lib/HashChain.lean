import Mathlib.Data.List.Chain
import Mathlib.Data.Set.Function

/-! Chains whose members name the hash of the member below them. -/

namespace Lord.HashChain

variable {α β : Type*} (hash prev : α → β)

/-- Each member names the hash of the one below it. -/
abbrev Linked (chain : List α) : Prop := chain.IsChain fun below above => prev above = hash below

variable {hash prev}

theorem linked_iff {chain : List α} : Linked hash prev chain ↔
    ∀ i below above, chain[i]? = some below → chain[i + 1]? = some above → prev above = hash below := by
  rw [Linked, List.isChain_iff_getElem]
  constructor
  · intro h i below above hbelow habove
    obtain ⟨hi, rfl⟩ := List.getElem?_eq_some_iff.mp habove
    obtain ⟨_, rfl⟩ := List.getElem?_eq_some_iff.mp hbelow
    exact h i hi
  · intro h i hi
    exact h i _ _ (List.getElem?_eq_getElem (by omega)) (List.getElem?_eq_getElem hi)

/-- A linked chain goes on with a member that names the hash of its last one. -/
theorem Linked.concat {chain : List α} {member : α} (h : Linked hash prev chain)
    (hlast : ∀ last, chain.getLast? = some last → prev member = hash last) :
    Linked hash prev (chain ++ [member]) := by
  rw [Linked, List.isChain_append]
  refine ⟨h, List.isChain_singleton _, ?_⟩
  intro last hmem first hfirst
  simp only [List.head?_cons, Option.mem_some] at hfirst
  subst hfirst
  exact hlast last hmem

/-- Where two linked chains have one hash, and no two of their members do, they are the same up to
there. -/
theorem take_eq_of_hash_eq {members : Set α} (hinj : Set.InjOn hash members) {a b : List α}
    (ha : Linked hash prev a) (hb : Linked hash prev b) (hamem : ∀ x ∈ a, x ∈ members)
    (hbmem : ∀ x ∈ b, x ∈ members) {i : Nat} {x y : α} (hx : a[i]? = some x) (hy : b[i]? = some y)
    (heq : hash x = hash y) : a.take (i + 1) = b.take (i + 1) := by
  induction i generalizing x y with
  | zero =>
    obtain rfl := hinj (hamem x (List.mem_of_getElem? hx)) (hbmem y (List.mem_of_getElem? hy)) heq
    rw [List.take_add_one, List.take_add_one, hx, hy, List.take_zero, List.take_zero]
  | succ i ih =>
    obtain rfl := hinj (hamem x (List.mem_of_getElem? hx)) (hbmem y (List.mem_of_getElem? hy)) heq
    obtain ⟨hai, -⟩ := List.getElem?_eq_some_iff.mp hx
    obtain ⟨hbi, -⟩ := List.getElem?_eq_some_iff.mp hy
    have hbelow := List.getElem?_eq_getElem (show i < a.length by omega)
    have hbelow' := List.getElem?_eq_getElem (show i < b.length by omega)
    have hprev := linked_iff.mp ha i _ _ hbelow hx
    have hprev' := linked_iff.mp hb i _ _ hbelow' hy
    rw [List.take_add_one (i := i + 1) (l := a), List.take_add_one (i := i + 1) (l := b), hx, hy,
      ih hbelow hbelow' (hprev.symm.trans hprev')]

end Lord.HashChain
