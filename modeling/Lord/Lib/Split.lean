import Mathlib.Data.List.Basic

/-! Text that is cut at a separator: into pieces, at the first one, and after the last one. -/

namespace Lord.Split

variable {α : Type*} [DecidableEq α]

/-- `split_once`: what stands before the first separator, and what after it. -/
def splitOnce (sep : α) : List α → Option (List α × List α)
  | [] => none
  | c :: rest =>
    if c = sep then some ([], rest) else (splitOnce sep rest).map fun (key, value) => (c :: key, value)

/-- The front of a text that ends with its last separator. -/
def upToLast (sep : α) : List α → Option (List α)
  | [] => none
  | c :: rest =>
    match upToLast sep rest with
    | some front => some (c :: front)
    | none => if c = sep then some [c] else none

variable {sep other : α} {text key value front : List α}

theorem splitOnce_append (h : sep ∉ key) :
    splitOnce sep (key ++ sep :: value) = some (key, value) := by
  induction key with
  | nil => simp [splitOnce]
  | cons c rest ih =>
    rw [List.mem_cons, not_or] at h
    rw [List.cons_append, splitOnce, if_neg (Ne.symm h.1), ih h.2, Option.map_some]

theorem splitOnce_eq_some :
    splitOnce sep text = some (key, value) ↔ text = key ++ sep :: value ∧ sep ∉ key := by
  refine ⟨fun h => ?_, fun ⟨htext, hkey⟩ => htext ▸ splitOnce_append hkey⟩
  induction text generalizing key with
  | nil => cases h
  | cons c rest ih =>
    rw [splitOnce] at h
    split at h
    · rename_i hc
      cases h
      simp [hc]
    · rename_i hc
      obtain ⟨⟨key', value'⟩, hrest, heq⟩ := Option.map_eq_some_iff.mp h
      cases heq
      obtain ⟨rfl, hkey⟩ := ih hrest
      exact ⟨rfl, by simp [Ne.symm hc, hkey]⟩

theorem splitOnce_eq_none : splitOnce sep text = none ↔ sep ∉ text := by
  induction text with
  | nil => simp [splitOnce]
  | cons c rest ih =>
    rw [splitOnce, List.mem_cons, not_or]
    split
    · rename_i hc
      simp [hc]
    · rename_i hc
      simp [ih, Ne.symm hc]

theorem upToLast_eq_none : upToLast sep text = none ↔ sep ∉ text := by
  induction text with
  | nil => simp [upToLast]
  | cons c rest ih =>
    rw [upToLast, List.mem_cons, not_or]
    cases hrest : upToLast sep rest with
    | some front =>
      rw [hrest] at ih
      have hmem : sep ∈ rest := by simpa using ih
      simp [hmem]
    | none =>
      simp [ih.mp hrest, eq_comm]

theorem upToLast_append (h : sep ∉ value) : upToLast sep (front ++ sep :: value) = some (front ++ [sep]) := by
  induction front with
  | nil => simp [upToLast, upToLast_eq_none.mpr h]
  | cons c rest ih => rw [List.cons_append, upToLast, ih, List.cons_append]

theorem upToLast_eq_some : upToLast sep text = some front ↔
    ∃ start value, front = start ++ [sep] ∧ text = start ++ sep :: value ∧ sep ∉ value := by
  constructor
  · intro h
    induction text generalizing front with
    | nil => cases h
    | cons c rest ih =>
      rw [upToLast] at h
      cases hrest : upToLast sep rest with
      | some front' =>
        rw [hrest] at h
        cases h
        obtain ⟨start, value, rfl, rfl, hvalue⟩ := ih hrest
        exact ⟨c :: start, value, rfl, rfl, hvalue⟩
      | none =>
        simp only [hrest] at h
        split at h
        · rename_i hc
          cases h
          exact ⟨[], rest, by simp [hc], by simp [hc], upToLast_eq_none.mp hrest⟩
        · cases h
  · rintro ⟨start, value, rfl, rfl, hvalue⟩
    exact upToLast_append hvalue

theorem splitOn_of_not_mem (h : sep ∉ text) : text.splitOn sep = [text] :=
  List.splitOnP_eq_singleton fun _ hc => beq_eq_false_iff_ne.mpr (ne_of_mem_of_not_mem hc h)

/-- What comes behind the pieces of a text, without a separator, comes to the last piece. -/
theorem splitOn_append (sep : α) (text : List α) : ∃ pieces last, last <:+ text ∧
    ∀ value : List α, sep ∉ value → (text ++ value).splitOn sep = pieces ++ [last ++ value] := by
  cases hlast : upToLast sep text with
  | none =>
    refine ⟨[], text, List.suffix_rfl, fun value hvalue => splitOn_of_not_mem ?_⟩
    rw [List.mem_append, not_or]
    exact ⟨upToLast_eq_none.mp hlast, hvalue⟩
  | some front =>
    obtain ⟨start, last, -, rfl, hnone⟩ := upToLast_eq_some.mp hlast
    refine ⟨start.splitOn sep, last, ⟨start ++ [sep], by simp⟩, fun value hvalue => ?_⟩
    rw [List.append_assoc, List.cons_append, List.splitOn, List.splitOnP_append_cons _ _ (by simp)]
    exact congrArg _ (splitOn_of_not_mem (by simp [hnone, hvalue]))

/-- The pieces of a text that all hold another separator leave none behind its last one. -/
theorem not_mem_of_pieces (h : ∀ piece ∈ (front ++ other :: value).splitOn sep, other ∈ piece)
    (hvalue : other ∉ value) : sep ∉ value := by
  intro hmem
  cases hlast : upToLast sep value with
  | none => exact absurd hmem (upToLast_eq_none.mp hlast)
  | some start =>
    obtain ⟨start, last, -, rfl, hnone⟩ := upToLast_eq_some.mp hlast
    have hpiece : last ∈ (front ++ other :: (start ++ sep :: last)).splitOn sep := by
      have hsplit : front ++ other :: (start ++ sep :: last) =
          (front ++ other :: start) ++ sep :: last := by simp
      rw [hsplit, List.splitOn, List.splitOnP_append_cons _ _ (by simp)]
      refine List.mem_append_right _ ?_
      rw [← List.splitOn, splitOn_of_not_mem hnone]
      exact List.mem_singleton_self _
    exact hvalue (List.mem_append_right _ (List.mem_cons_of_mem _ (h last hpiece)))

/-- The first separator of a text stays the first when more comes behind it. -/
theorem splitOnce_behind (sep : α) (text : List α) : ∃ key tail, (tail = [] ∨ sep ∈ tail) ∧
    ∀ value : List α, splitOnce sep (text ++ sep :: value) = some (key, tail ++ value) := by
  cases hfirst : splitOnce sep text with
  | none =>
    exact ⟨text, [], .inl rfl, fun value => splitOnce_append (splitOnce_eq_none.mp hfirst)⟩
  | some parts =>
    obtain ⟨key, rest⟩ := parts
    obtain ⟨rfl, hkey⟩ := splitOnce_eq_some.mp hfirst
    refine ⟨key, rest ++ [sep], .inr (by simp), fun value => ?_⟩
    rw [List.append_assoc, List.cons_append, splitOnce_append hkey]
    simp

end Lord.Split
