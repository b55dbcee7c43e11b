import Mathlib.Data.List.AList
import Mathlib.Data.List.Induction
import Mathlib.Data.Set.Function

/-! Values that are inserted in a table one after the other, each under the key of its position. -/

namespace Lord.KeyedEntries

variable {α β : Type*} [DecidableEq α]

def insertAll (key : Nat → α) (s : AList fun _ : α => β) (xs : List β) : AList fun _ : α => β :=
  xs.zipIdx.foldl (fun s x => s.insert (key x.2) x.1) s

variable {key : Nat → α} {s : AList fun _ : α => β} {xs : List β}

theorem insertAll_concat (xs : List β) (x : β) :
    insertAll key s (xs ++ [x]) = (insertAll key s xs).insert (key xs.length) x := by
  simp [insertAll, List.zipIdx_append]

/-- Other keys keep their values. -/
theorem lookup_insertAll_of_ne {a : α} (h : ∀ i < xs.length, a ≠ key i) :
    (insertAll key s xs).lookup a = s.lookup a := by
  induction xs using List.reverseRecOn with
  | nil => rfl
  | append_singleton xs x ih =>
    rw [List.length_append, List.length_singleton] at h
    rw [insertAll_concat, AList.lookup_insert_ne (h _ (by omega))]
    exact ih fun i hi => h i (by omega)

/-- Distinct keys have the values of their positions. -/
theorem lookup_insertAll {i : Nat} (hkey : Set.InjOn key {i | i < xs.length}) (hi : i < xs.length) :
    (insertAll key s xs).lookup (key i) = xs[i]? := by
  induction xs using List.reverseRecOn with
  | nil => exact absurd hi (Nat.not_lt_zero i)
  | append_singleton xs x ih =>
    have hlen : (xs ++ [x]).length = xs.length + 1 := by simp
    rw [insertAll_concat]
    by_cases hlast : i = xs.length
    · subst hlast
      rw [AList.lookup_insert, List.getElem?_concat_length]
    · have hne : key i ≠ key xs.length := fun heq =>
        hlast (hkey hi (show xs.length < _ by omega) heq)
      rw [AList.lookup_insert_ne hne, List.getElem?_append_left (by omega)]
      exact ih (hkey.mono fun j (hj : j < xs.length) => show j < _ by omega) (by omega)

/-- New and distinct keys come to the ones of the table. -/
theorem keys_insertAll (hkey : Set.InjOn key {i | i < xs.length})
    (hnew : ∀ i < xs.length, key i ∉ s) :
    (insertAll key s xs).keys.Perm ((List.range xs.length).map key ++ s.keys) := by
  induction xs using List.reverseRecOn with
  | nil => exact .refl _
  | append_singleton xs x ih =>
    have hlen : (xs ++ [x]).length = xs.length + 1 := by simp
    rw [hlen] at hnew
    have hrest := ih (hkey.mono fun j (hj : j < xs.length) => show j < _ by omega)
      fun i hi => hnew i (by omega)
    have hout : key xs.length ∉ (insertAll key s xs).keys := by
      rw [hrest.mem_iff, List.mem_append, List.mem_map]
      rintro (⟨i, hi, heq⟩ | hin)
      · rw [List.mem_range] at hi
        have := hkey (show i < _ by omega) (show xs.length < _ by omega) heq
        omega
      · exact hnew _ (Nat.lt_succ_self _) hin
    rw [insertAll_concat, AList.keys_insert, List.erase_of_not_mem hout, hlen, List.range_succ,
      List.map_append, List.append_assoc]
    exact (hrest.cons _).trans List.perm_middle.symm

theorem keys_erase {a : α} (h : a ∈ s) : s.keys.Perm (a :: (s.erase a).keys) := by
  rw [AList.keys_erase]
  exact List.perm_cons_erase h

end Lord.KeyedEntries
