import Mathlib.Data.List.Basic
import Mathlib.Data.Nat.Notation

/-! A list cut into pages of one size. -/

namespace Lord.Pages

variable {α : Type} {size : Nat}

/-- A page of a list. -/
def page (size : Nat) (xs : List α) (p : Nat) : List α := (xs.drop (p * size)).take size

/-- How many pages a list of this length has; an empty list has an empty one. -/
def count (size n : Nat) : Nat := max ((n + size - 1) / size) 1

/-- All pages. -/
def pages (size : Nat) (xs : List α) : List (List α) :=
  (List.range (count size xs.length)).map (page size xs)

theorem count_pos (size n : Nat) : 0 < count size n := Nat.le_max_right _ 1

@[simp] theorem length_pages (size : Nat) (xs : List α) :
    (pages size xs).length = count size xs.length := by
  simp [pages]

theorem length_page_le (size : Nat) (xs : List α) (p : Nat) : (page size xs p).length ≤ size := by
  rw [page, List.length_take]
  exact Nat.min_le_left _ _

/-- Every page in front of the last one is full. -/
theorem length_page (hsize : 0 < size) {xs : List α} {p : Nat} (hp : p + 1 < count size xs.length) :
    (page size xs p).length = size := by
  have hquotient : p + 1 < (xs.length + size - 1) / size := by
    rw [count] at hp
    omega
  have hfull : (p + 2) * size ≤ xs.length + size - 1 :=
    (Nat.le_div_iff_mul_le hsize).mp hquotient
  have hsplit : (p + 2) * size = p * size + size + size := by
    rw [Nat.add_mul, Nat.two_mul, Nat.add_assoc]
  rw [page, List.length_take, List.length_drop]
  omega

theorem length_of_mem_dropLast (hsize : 0 < size) {xs shown : List α}
    (h : shown ∈ (pages size xs).dropLast) : shown.length = size := by
  obtain ⟨p, hp, rfl⟩ := List.mem_iff_getElem.mp h
  rw [List.length_dropLast, length_pages] at hp
  rw [List.getElem_dropLast]
  simp only [pages, List.getElem_map, List.getElem_range]
  exact length_page hsize (by omega)

theorem eq_page {xs shown : List α} {p : Nat} (h : (pages size xs)[p]? = some shown) :
    shown = page size xs p := by
  rw [pages, List.getElem?_map, Option.map_eq_some_iff] at h
  obtain ⟨q, hq, rfl⟩ := h
  obtain ⟨hlt, rfl⟩ := List.getElem?_eq_some_iff.mp hq
  rw [List.getElem_range]

/-- The first pages put together. -/
theorem flatten_page (size : Nat) (xs : List α) (k : Nat) :
    ((List.range k).map (page size xs)).flatten = xs.take (k * size) := by
  induction k with
  | zero => simp
  | succ k ih =>
    rw [List.range_succ, List.map_append, List.flatten_append, ih, Nat.succ_mul, List.take_add]
    simp [page]

/-- The pages put together are the list. -/
theorem flatten_pages (hsize : 0 < size) (xs : List α) : (pages size xs).flatten = xs := by
  have hquotient : (xs.length + size - 1) / size ≤ count size xs.length := Nat.le_max_left _ 1
  have hcover : xs.length ≤ count size xs.length * size := by
    have hmod := Nat.mod_lt (xs.length + size - 1) hsize
    have hdiv := Nat.div_add_mod (xs.length + size - 1) size
    have hmono := Nat.mul_le_mul_left size hquotient
    rw [Nat.mul_comm]
    omega
  rw [pages, flatten_page, List.take_of_length_le hcover]

end Lord.Pages
