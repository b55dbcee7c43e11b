import Mathlib.Logic.Function.Basic
import Mathlib.Data.List.Basic

/-! Tables as partial maps, and the last of a list of writes to a key.  A write of `none` deletes its
key. -/

namespace Lord.Writes

open Function

variable {K V : Type*} [DecidableEq K]

/-- The table after the writes. -/
def applyAll (table : K → Option V) (writes : List (K × Option V)) : K → Option V :=
  writes.foldl (fun t w => update t w.1 w.2) table

/-- Some write is to the key. -/
def Touches (writes : List (K × Option V)) (key : K) : Prop := ∃ value, (key, value) ∈ writes

variable {table : K → Option V} {writes front back : List (K × Option V)} {key : K} {value : Option V}

@[simp] theorem applyAll_nil : applyAll table [] = table := rfl

@[simp] theorem applyAll_cons (write : K × Option V) :
    applyAll table (write :: writes) = applyAll (update table write.1 write.2) writes := rfl

@[simp] theorem applyAll_append :
    applyAll table (front ++ back) = applyAll (applyAll table front) back := by
  simp [applyAll]

/-- A key that no write is to keeps its value. -/
theorem applyAll_of_not_touches (h : ¬Touches writes key) : applyAll table writes key = table key := by
  induction writes generalizing table with
  | nil => rfl
  | cons write writes ih =>
    have hne : key ≠ write.1 := fun heq => h ⟨write.2, by simp [heq]⟩
    have hrest : ¬Touches writes key := fun ⟨value, hmem⟩ => h ⟨value, by simp [hmem]⟩
    rw [applyAll_cons, ih hrest, update_of_ne hne]

/-- A key has the value of the last write to it. -/
theorem applyAll_of_last (h : ¬Touches back key) :
    applyAll table (front ++ (key, value) :: back) key = value := by
  rw [applyAll_append, applyAll_cons, applyAll_of_not_touches h, update_self]

/-- The value of a key was there and is untouched, or it has been written. -/
theorem applyAll_eq_or (table : K → Option V) (writes : List (K × Option V)) (key : K) :
    (¬Touches writes key ∧ applyAll table writes key = table key) ∨
      (key, applyAll table writes key) ∈ writes := by
  induction writes generalizing table with
  | nil => exact .inl ⟨by simp [Touches], rfl⟩
  | cons write writes ih =>
    rw [applyAll_cons]
    rcases ih (update table write.1 write.2) with ⟨hrest, heq⟩ | hmem
    · by_cases hkey : key = write.1
      · subst hkey
        rw [heq, update_self]
        exact .inr (by simp)
      · rw [heq, update_of_ne hkey]
        refine .inl ⟨?_, rfl⟩
        rintro ⟨value, hmem⟩
        rcases List.mem_cons.mp hmem with heq | hmem
        · exact hkey (congrArg Prod.fst heq)
        · exact hrest ⟨value, hmem⟩
    · exact .inr (List.mem_cons_of_mem _ hmem)

/-- A property that some element has is that of a last one. -/
theorem exists_last {α : Type*} {P : α → Prop} {xs : List α} (h : ∃ x ∈ xs, P x) :
    ∃ front x back, xs = front ++ x :: back ∧ P x ∧ ∀ y ∈ back, ¬P y := by
  classical
  induction xs with
  | nil => simp at h
  | cons first rest ih =>
    by_cases hrest : ∃ x ∈ rest, P x
    · obtain ⟨front, x, back, rfl, hx, hback⟩ := ih hrest
      exact ⟨first :: front, x, back, rfl, hx, hback⟩
    · obtain ⟨x, hx, hP⟩ := h
      rcases List.mem_cons.mp hx with rfl | hx
      · exact ⟨[], x, rest, rfl, hP, fun y hy hPy => hrest ⟨y, hy, hPy⟩⟩
      · exact absurd ⟨x, hx, hP⟩ hrest

/-- Deletes leave no value at their keys. -/
theorem applyAll_deletes (table : K → Option V) (keys : List K) (key : K) :
    applyAll table (keys.map fun k => (k, none)) key = if key ∈ keys then none else table key := by
  rcases applyAll_eq_or table (keys.map fun k => (k, none)) key with ⟨hnot, heq⟩ | hmem
  · have hkey : key ∉ keys := fun hkey => hnot ⟨none, List.mem_map_of_mem hkey⟩
    rw [heq, if_neg hkey]
  · obtain ⟨k, hk, heq⟩ := List.mem_map.mp hmem
    obtain ⟨rfl, hnone⟩ := Prod.mk.inj heq
    rw [if_pos hk, ← hnone]

end Lord.Writes
