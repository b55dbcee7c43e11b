import Mathlib.Algebra.BigOperators.Group.List.Basic
import Mathlib.Algebra.Order.Ring.Nat

/-! Values dealt out in order: positions from 0 on fall to the first value, the next ones to the second,
and what is left over falls to none. -/

namespace Lord.Dealing

/-- The first position of a value. -/
def start (values : List Nat) (k : Nat) : Nat := (values.take k).sum

/-- A position falls to a value. -/
def Holds (values : List Nat) (k position : Nat) : Prop :=
  ∃ value, values[k]? = some value ∧ start values k ≤ position ∧ position < start values k + value

variable {values : List Nat} {k position : Nat}

@[simp] theorem start_zero (values : List Nat) : start values 0 = 0 := rfl

theorem start_cons_succ (value : Nat) (values : List Nat) (k : Nat) :
    start (value :: values) (k + 1) = value + start values k := by
  simp [start]

theorem holds_cons_succ {value : Nat} (h : Holds values k position) :
    Holds (value :: values) (k + 1) (value + position) := by
  obtain ⟨found, hget, hle, hlt⟩ := h
  refine ⟨found, hget, ?_, ?_⟩ <;> rw [start_cons_succ] <;> omega

/-- A position in front of a value falls to one of the values before it. -/
theorem holds_of_lt_start (h : position < start values k) : ∃ j < k, Holds values j position := by
  induction values generalizing k position with
  | nil => simp [start] at h
  | cons value values ih =>
    cases k with
    | zero => simp at h
    | succ k =>
      rw [start_cons_succ] at h
      by_cases hfirst : position < value
      · exact ⟨0, Nat.succ_pos k, value, rfl, Nat.zero_le _, by simpa using hfirst⟩
      · obtain ⟨j, hj, hholds⟩ := @ih k (position - value) (by omega)
        refine ⟨j + 1, Nat.succ_lt_succ hj, ?_⟩
        rw [show position = value + (position - value) by omega]
        exact holds_cons_succ hholds

/-- An element of a part of a list lies in the list behind the parts before it. -/
theorem getElem?_flatten {α : Type*} {parts : List (List α)} {k i : Nat} {part : List α}
    (hpart : parts[k]? = some part) (hi : i < part.length) :
    parts.flatten[start (parts.map List.length) k + i]? = part[i]? := by
  induction parts generalizing k with
  | nil => cases hpart
  | cons first rest ih =>
    rw [List.flatten_cons, List.map_cons]
    cases k with
    | zero =>
      obtain rfl : first = part := by simpa using hpart
      rw [start_zero, Nat.zero_add, List.getElem?_append_left hi]
    | succ k =>
      rw [start_cons_succ, Nat.add_assoc, List.getElem?_append_right (Nat.le_add_right _ _),
        Nat.add_sub_cancel_left]
      exact ih (by simpa using hpart)

end Lord.Dealing
