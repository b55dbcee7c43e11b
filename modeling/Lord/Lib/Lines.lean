import Mathlib.Data.List.Basic

/-! The lines of a text: the pieces between its newlines. -/

namespace Lord.Lines

variable {α : Type} [DecidableEq α]

/-- The pieces of a text, each with the separator behind it if it has one. -/
def splitInclusive (separator : α) : List α → List (List α)
  | [] => []
  | a :: rest =>
    if a = separator then
      [a] :: splitInclusive separator rest
    else
      match splitInclusive separator rest with
      | [] => [[a]]
      | piece :: others => (a :: piece) :: others

/-- A line without its newline, and without a carriage return in front of that. -/
def strip (line : List Char) : List Char :=
  if line.getLast? = some '\n' then
    if line.dropLast.getLast? = some '\r' then line.dropLast.dropLast else line.dropLast
  else
    line

/-- `str::lines`. -/
def lines (text : String) : List String :=
  (splitInclusive '\n' text.toList).map fun line => String.ofList (strip line)

/-- Unicode white space, the model of `char::is_whitespace`. -/
def isWhitespace (c : Char) : Bool :=
  (9 ≤ c.toNat && c.toNat ≤ 13) || c.toNat = 0x20 || c.toNat = 0x85 || c.toNat = 0xa0 || c.toNat = 0x1680 ||
    (0x2000 ≤ c.toNat && c.toNat ≤ 0x200a) || c.toNat = 0x2028 || c.toNat = 0x2029 || c.toNat = 0x202f ||
    c.toNat = 0x205f || c.toNat = 0x3000

variable {separator : α} {line rest : List α}

/-- A line that stands in front of a text is its first piece. -/
theorem splitInclusive_append (h : separator ∉ line) :
    splitInclusive separator (line ++ separator :: rest) =
      (line ++ [separator]) :: splitInclusive separator rest := by
  induction line with
  | nil => simp [splitInclusive]
  | cons a line ih =>
    rw [List.mem_cons, not_or] at h
    rw [List.cons_append, splitInclusive, if_neg (Ne.symm h.1), ih h.2]
    rfl

/-- A line without its separator is the last piece. -/
theorem splitInclusive_last (h : separator ∉ line) (hne : line ≠ []) :
    splitInclusive separator line = [line] := by
  induction line with
  | nil => exact absurd rfl hne
  | cons a line ih =>
    rw [List.mem_cons, not_or] at h
    rw [splitInclusive, if_neg (Ne.symm h.1)]
    cases line with
    | nil => rfl
    | cons b line => rw [ih h.2 (by simp)]

/-- A text behind a separator has its own pieces. -/
theorem splitInclusive_behind (separator : α) (front back : List α) :
    splitInclusive separator (front ++ separator :: back) =
      splitInclusive separator (front ++ [separator]) ++ splitInclusive separator back := by
  induction front with
  | nil => simp [splitInclusive]
  | cons a front ih =>
    rw [List.cons_append, List.cons_append, splitInclusive, splitInclusive, ih]
    split
    · rfl
    · cases hfront : splitInclusive separator (front ++ [separator]) with
      | nil =>
        cases front with
        | nil => simp [splitInclusive] at hfront
        | cons b front =>
          rw [List.cons_append, splitInclusive] at hfront
          split at hfront
          · cases hfront
          · split at hfront <;> cases hfront
      | cons piece others => rfl

/-- What is stripped of a line. -/
theorem exists_strip (line : List Char) :
    ∃ tail, line = strip line ++ tail ∧ ∀ c ∈ tail, c = '\n' ∨ c = '\r' := by
  unfold strip
  split
  · rename_i hnewline
    obtain ⟨rest, rfl⟩ := List.getLast?_eq_some_iff.mp hnewline
    rw [List.dropLast_concat]
    split
    · rename_i hreturn
      obtain ⟨rest, rfl⟩ := List.getLast?_eq_some_iff.mp hreturn
      exact ⟨['\r', '\n'], by simp, by simp⟩
    · exact ⟨['\n'], rfl, by simp⟩
  · exact ⟨[], by simp, by simp⟩

theorem strip_newline {line : List Char} (h : line.getLast? ≠ some '\r') : strip (line ++ ['\n']) = line := by
  simp [strip, h]

theorem strip_of_ne {line : List Char} (h : line.getLast? ≠ some '\n') : strip line = line := by
  rw [strip, if_neg h]

end Lord.Lines
