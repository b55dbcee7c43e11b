import Mathlib.Order.Lattice

/-! The first element of greatest rank in a list, and how it composes over nested lists: the first
maximum of a concatenation is the first maximum of the first maxima of its parts. -/

namespace Lord.Precedence

variable {α β ι : Type*} [LinearOrder β]

/-- `v` has the greatest rank in `xs`, and every element before it has a smaller one. -/
def IsFirstMax (rank : α → β) (xs : List α) (v : α) : Prop :=
  ∃ before after, xs = before ++ v :: after ∧
    (∀ w ∈ before, rank w < rank v) ∧ ∀ w ∈ after, rank w ≤ rank v

variable {rank : α → β} {xs : List α} {v w : α}

theorem IsFirstMax.singleton (rank : α → β) (v : α) : IsFirstMax rank [v] v :=
  ⟨[], [], rfl, by simp, by simp⟩

theorem IsFirstMax.mem (h : IsFirstMax rank xs v) : v ∈ xs := by
  obtain ⟨before, after, rfl, -, -⟩ := h
  simp

theorem IsFirstMax.le (h : IsFirstMax rank xs v) (hw : w ∈ xs) : rank w ≤ rank v := by
  obtain ⟨before, after, rfl, hbefore, hafter⟩ := h
  rcases List.mem_append.mp hw with hw | hw
  · exact (hbefore w hw).le
  rcases List.mem_cons.mp hw with rfl | hw
  · exact le_refl _
  · exact hafter w hw

/-- The first element that passes a test for rank `r` is the first maximum when none ranks
above `r`. -/
theorem IsFirstMax.of_find? {p : α → Bool} {r : β} (hp : ∀ w ∈ xs, p w = true ↔ rank w = r)
    (hfind : xs.find? p = some v) (hle : ∀ w ∈ xs, rank w ≤ r) : IsFirstMax rank xs v := by
  obtain ⟨hpv, before, after, rfl, hbefore⟩ := List.find?_eq_some_iff_append.mp hfind
  have hv : rank v = r := (hp v (by simp)).mp hpv
  refine ⟨before, after, rfl, ?_, ?_⟩
  · intro w hw
    have hne : rank w ≠ r := fun h => by
      have hpw := (hp w (by simp [hw])).mpr h
      simp at hbefore
      exact absurd (hbefore w hw) (by simp [hpw])
    rw [hv]
    exact lt_of_le_of_ne (hle w (by simp [hw])) hne
  · intro w hw
    rw [hv]
    exact hle w (by simp [hw])

/-- A member that no other ranks above, and that is the only one of its rank, is the first
maximum. -/
theorem IsFirstMax.of_mem (hv : v ∈ xs) (hle : ∀ w ∈ xs, rank w ≤ rank v)
    (hone : ∀ w ∈ xs, rank w = rank v → w = v) : IsFirstMax rank xs v := by
  obtain ⟨before, after, rfl, hbefore⟩ := List.eq_append_cons_of_mem hv
  refine ⟨before, after, rfl, ?_, fun w hw => hle w (by simp [hw])⟩
  intro w hw
  refine lt_of_le_of_ne (hle w (by simp [hw])) fun h => hbefore ?_
  rw [← hone w (by simp [hw]) h]
  exact hw

/-- Elements in front that rank below the maximum do not change it. -/
theorem IsFirstMax.append_left {ys : List α} (h : IsFirstMax rank xs v)
    (hys : ∀ w ∈ ys, rank w < rank v) : IsFirstMax rank (ys ++ xs) v := by
  obtain ⟨before, after, rfl, hbefore, hafter⟩ := h
  refine ⟨ys ++ before, after, by simp, ?_, hafter⟩
  intro w hw
  rcases List.mem_append.mp hw with hw | hw
  · exact hys w hw
  · exact hbefore w hw

/-- Elements behind that do not rank above the maximum do not change it. -/
theorem IsFirstMax.append_right {ys : List α} (h : IsFirstMax rank xs v)
    (hys : ∀ w ∈ ys, rank w ≤ rank v) : IsFirstMax rank (xs ++ ys) v := by
  obtain ⟨before, after, rfl, hbefore, hafter⟩ := h
  refine ⟨before, after ++ ys, by simp, hbefore, ?_⟩
  intro w hw
  rcases List.mem_append.mp hw with hw | hw
  · exact hafter w hw
  · exact hys w hw

/-- The first maximum of a list may stand for it in front of another one. -/
theorem IsFirstMax.append_of_cons {ys : List α} (h : IsFirstMax rank (w :: xs) v)
    (hw : IsFirstMax rank ys w) : IsFirstMax rank (ys ++ xs) v := by
  obtain ⟨before, after, heq, hbefore, hafter⟩ := h
  cases before with
  | nil =>
    obtain ⟨rfl, rfl⟩ := List.cons.inj heq
    exact hw.append_right hafter
  | cons first before =>
    obtain ⟨rfl, rfl⟩ := List.cons.inj heq
    have hrest : IsFirstMax rank (before ++ v :: after) v :=
      ⟨before, after, rfl, fun u hu => hbefore u (List.mem_cons_of_mem _ hu), hafter⟩
    refine hrest.append_left fun u hu => ?_
    calc rank u ≤ rank w := hw.le hu
      _ < rank v := hbefore w List.mem_cons_self

/-- Of two elements the second comes first only if it ranks above the other. -/
theorem IsFirstMax.pair (rank : α → β) (v w : α) :
    IsFirstMax rank [v, w] (if rank v < rank w then w else v) := by
  split
  · rename_i hless
    have hfront : ∀ u ∈ [v], rank u < rank w := by simpa using hless
    exact (IsFirstMax.singleton rank w).append_left hfront
  · rename_i hle
    have hback : ∀ u ∈ [w], rank u ≤ rank v := by simpa using hle
    exact (IsFirstMax.singleton rank v).append_right hback

/-- A list has at most one first maximum. -/
theorem IsFirstMax.unique (hv : IsFirstMax rank xs v) (hw : IsFirstMax rank xs w) : v = w := by
  induction xs with
  | nil => exact absurd hv.mem (by simp)
  | cons x xs ih =>
    obtain ⟨beforeV, afterV, hxv, hbeforeV, hafterV⟩ := id hv
    obtain ⟨beforeW, afterW, hxw, hbeforeW, hafterW⟩ := id hw
    cases beforeV with
    | nil =>
      cases beforeW with
      | nil => simp_all
      | cons y beforeW =>
        -- `v` is the head, so it ranks strictly below `w`, which it cannot.
        obtain ⟨rfl, -⟩ := List.cons.inj hxv
        obtain ⟨rfl, -⟩ := List.cons.inj hxw
        exact absurd (hbeforeW x (by simp)) (not_lt.mpr (hv.le hw.mem))
    | cons y beforeV =>
      obtain ⟨rfl, hxs⟩ := List.cons.inj hxv
      cases beforeW with
      | nil =>
        obtain ⟨rfl, -⟩ := List.cons.inj hxw
        exact absurd (hbeforeV x (by simp)) (not_lt.mpr (hw.le hv.mem))
      | cons z beforeW =>
        obtain ⟨rfl, hxs'⟩ := List.cons.inj hxw
        exact ih ⟨beforeV, afterV, hxs, fun u hu => hbeforeV u (by simp [hu]), hafterV⟩
          ⟨beforeW, afterW, hxs', fun u hu => hbeforeW u (by simp [hu]), hafterW⟩

/-- The first maximum of the parts' first maxima is the first maximum of the concatenation. -/
theorem IsFirstMax.flatMap {parts : List ι} {f : ι → List α} {top : ι → α}
    (hparts : ∀ i ∈ parts, IsFirstMax rank (f i) (top i))
    (h : IsFirstMax rank (parts.map top) v) : IsFirstMax rank (parts.flatMap f) v := by
  obtain ⟨before, after, heq, hbefore, hafter⟩ := h
  obtain ⟨front, rest, rfl, rfl, hrest⟩ := List.map_eq_append_iff.mp heq
  obtain ⟨i, back, rfl, rfl, rfl⟩ := List.map_eq_cons_iff.mp hrest
  have hfront : ∀ w ∈ front.flatMap f, rank w < rank (top i) := by
    intro w hw
    obtain ⟨j, hj, hwj⟩ := List.mem_flatMap.mp hw
    calc rank w ≤ rank (top j) := (hparts j (by simp [hj])).le hwj
      _ < rank (top i) := hbefore _ (List.mem_map_of_mem hj)
  have hback : ∀ w ∈ back.flatMap f, rank w ≤ rank (top i) := by
    intro w hw
    obtain ⟨j, hj, hwj⟩ := List.mem_flatMap.mp hw
    calc rank w ≤ rank (top j) := (hparts j (by simp [hj])).le hwj
      _ ≤ rank (top i) := hafter _ (List.mem_map_of_mem hj)
  rw [List.flatMap_append, List.flatMap_cons]
  exact ((hparts i (by simp)).append_right hback).append_left hfront

end Lord.Precedence
