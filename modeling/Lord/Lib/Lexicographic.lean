import Mathlib.Data.List.Infix
import Mathlib.Order.Compare

/-! The lexicographic order of lists under an embedding of their elements with a terminator, and
next to a list that repeats a greatest element. -/

namespace Lord.Lexicographic

variable {α β : Type*} [Ord α] [Ord β]

/-- Elementwise images that are closed by a least element are ordered as the lists are. -/
theorem compare_terminated [Std.ReflOrd β] {f : α → β} {bot : β} {xs ys : List α}
    (hf : ∀ x ∈ xs, ∀ y ∈ ys, compare (f x) (f y) = compare x y)
    (hxs : ∀ x ∈ xs, compare (f x) bot = .gt) (hys : ∀ y ∈ ys, compare bot (f y) = .lt) :
    compare (xs.map f ++ [bot]) (ys.map f ++ [bot]) = compare xs ys := by
  induction xs generalizing ys with
  | nil =>
    cases ys with
    | nil => simp [Std.ReflOrd.compare_self]
    | cons y ys =>
      simp [List.compare_cons_cons, List.compare_nil_cons, hys y (by simp)]
  | cons x xs ih =>
    cases ys with
    | nil => simp [List.compare_cons_cons, List.compare_cons_nil, hxs x (by simp)]
    | cons y ys =>
      have hrest := @ih ys (fun a ha b hb => hf a (by simp [ha]) b (by simp [hb]))
        (fun a ha => hxs a (by simp [ha])) (fun b hb => hys b (by simp [hb]))
      rw [List.map_cons, List.map_cons, List.cons_append, List.cons_append,
        List.compare_cons_cons, List.compare_cons_cons, hrest, hf x (by simp) y (by simp)]

/-- Of the other lists only the extensions of a repeated greatest element are behind it. -/
theorem compare_replicate_eq_lt [Std.ReflOrd α] {top : α} {xs : List α}
    (htop : ∀ x ∈ xs, x ≠ top → compare top x = .gt) (n : Nat) :
    compare (List.replicate n top) xs = .lt ↔
      List.replicate n top <+: xs ∧ xs ≠ List.replicate n top := by
  induction n generalizing xs with
  | zero =>
    cases xs with
    | nil => simp
    | cons x xs => simp [List.compare_nil_cons]
  | succ n ih =>
    cases xs with
    | nil => simp [List.replicate_succ, List.compare_cons_nil]
    | cons x xs =>
      rw [List.replicate_succ, List.compare_cons_cons]
      by_cases hx : x = top
      · subst hx
        rw [Std.ReflOrd.compare_self, Ordering.eq_then,
          ih fun y hy => htop y (List.mem_cons_of_mem _ hy)]
        simp
      · rw [htop x (by simp) hx, Ordering.gt_then]
        simp [Ne.symm hx]

end Lord.Lexicographic
