import Mathlib.Logic.Function.Basic

/-! A secondary index: a map from the keys of rows back to the rows.  When it agrees with the rows,
each operation on a row has one operation on the index that keeps the agreement, and leaving the
index alone breaks it exactly when the row had a key. -/

namespace Lord.SecondaryIndex

open Function

variable {R K : Type*}

/-- The index holds the key of every row, and nothing else. -/
def Agrees (keyOf : R → Option K) (index : K → Option R) : Prop :=
  ∀ key row, index key = some row ↔ keyOf row = some key

variable {keyOf : R → Option K} {index : K → Option R}

theorem Agrees.empty : Agrees (fun _ : R => none) (fun _ : K => none) := by
  intro key row
  simp

/-- No two rows have one key. -/
theorem Agrees.unique (h : Agrees keyOf index) {row row' : R} {key : K}
    (hrow : keyOf row = some key) (hrow' : keyOf row' = some key) : row = row' := by
  have hindex := (h key row).mpr hrow
  rw [(h key row').mpr hrow'] at hindex
  exact (Option.some.inj hindex).symm

/-- Rows that lose their keys while the index stays: the agreement holds exactly when none of them
had one. -/
theorem Agrees.clear_iff (h : Agrees keyOf index) (rows : R → Prop) [DecidablePred rows] :
    Agrees (fun row => if rows row then none else keyOf row) index ↔
      ∀ row, rows row → keyOf row = none := by
  constructor
  · intro hclear row hrow
    cases hkey : keyOf row with
    | none => rfl
    | some key =>
      have hindex := (hclear key row).mp ((h key row).mpr hkey)
      simp [hrow] at hindex
  · intro hnone key row
    by_cases hrow : rows row
    · simp only [hrow, if_true]
      rw [h key row, hnone row hrow]
    · simp only [hrow, if_false]
      exact h key row

variable [DecidableEq K]

/-- The index without a key that a row may have had. -/
def forget (index : K → Option R) (key : Option K) : K → Option R :=
  match key with
  | some key => update index key none
  | none => index

theorem forget_eq_some {key : Option K} {k : K} {row : R} :
    forget index key k = some row ↔ key ≠ some k ∧ index k = some row := by
  cases key with
  | none => simp [forget]
  | some key =>
    by_cases hkey : k = key
    · subst hkey
      simp [forget]
    · simp [forget, update_of_ne hkey, Ne.symm hkey]

/-- The index with a row under a key that the row may have. -/
def remember (index : K → Option R) (key : Option K) (row : R) : K → Option R :=
  match key with
  | some key => update index key (some row)
  | none => index

/-- A row moves to a key that is free or its own: the old key leaves the index, the new one enters. -/
theorem Agrees.rekey [DecidableEq R] (h : Agrees keyOf index) {row : R} {key : K}
    (hfree : ∀ owner, index key = some owner → owner = row) :
    Agrees (update keyOf row (some key)) (update (forget index (keyOf row)) key (some row)) := by
  intro k r
  by_cases hk : k = key
  · subst hk
    by_cases hr : r = row
    · simp [hr]
    · have hother : keyOf r ≠ some k := fun hkey => hr (hfree r ((h k r).mpr hkey))
      simp [update_of_ne hr, hother, Ne.symm hr]
  · rw [update_of_ne hk, forget_eq_some]
    by_cases hr : r = row
    · subst hr
      have hnot : ¬(keyOf r ≠ some k ∧ index k = some r) := fun ⟨hne, hindex⟩ =>
        hne ((h k r).mp hindex)
      simp [hnot, Ne.symm hk]
    · rw [update_of_ne hr, h k r]
      have hdiff : keyOf r = some k → keyOf row ≠ some k := fun hkey hrow =>
        hr (h.unique hkey hrow)
      exact ⟨fun hboth => hboth.2, fun hkey => ⟨hdiff hkey, hkey⟩⟩

/-- A move to a key that was free or its own is undone by dropping that key and putting the old one
back. -/
theorem Agrees.remember_forget (h : Agrees keyOf index) {row : R} {key : K}
    (hfree : ∀ owner, index key = some owner → owner = row) :
    remember (forget (forget index (keyOf row)) (some key)) (keyOf row) row = index := by
  have habsent : keyOf row ≠ some key → index key = none := by
    intro hne
    cases howner : index key with
    | none => rfl
    | some owner =>
      obtain rfl := hfree owner howner
      exact absurd ((h key owner).mp howner) hne
  funext k
  cases hold : keyOf row with
  | none =>
    by_cases hk : k = key
    · subst hk
      simp [forget, remember, habsent (by simp [hold])]
    · simp [forget, remember, update_of_ne hk]
  | some old =>
    by_cases hk : k = old
    · subst hk
      simp [remember, (h k row).mpr hold]
    · by_cases hkey : k = key
      · subst hkey
        have hne : keyOf row ≠ some k := by
          rw [hold]
          exact fun heq => hk (Option.some.inj heq).symm
        simp [forget, remember, update_of_ne hk, habsent hne]
      · simp [forget, remember, update_of_ne hk, update_of_ne hkey]

/-- A key that leaves the index while the rows stay: the agreement holds exactly when it was not in
the index. -/
theorem Agrees.evict_iff (h : Agrees keyOf index) (key : K) :
    Agrees keyOf (update index key none) ↔ index key = none := by
  constructor
  · intro hevict
    cases howner : index key with
    | none => rfl
    | some row =>
      have hindex := (hevict key row).mpr ((h key row).mp howner)
      simp at hindex
  · intro hnone
    rwa [← hnone, update_eq_self]

end Lord.SecondaryIndex
