import Mathlib.Order.Lattice
import Mathlib.Data.List.Basic

/-! Maps as lists of entries in the order of their keys. -/

namespace Lord

structure SortedMap (κ β : Type) [LinearOrder κ] where
  entries : List (κ × β)
  sorted : entries.Pairwise fun a b => a.1 < b.1

namespace SortedMap

variable {κ β : Type} [LinearOrder κ] (m : SortedMap κ β)

def empty : SortedMap κ β := ⟨[], .nil⟩

def values : List β := m.entries.map Prod.snd

def get (key : κ) : Option β := (m.entries.find? fun entry => entry.1 = key).map Prod.snd

def insert (key : κ) (value : β) : SortedMap κ β where
  entries := m.entries.filter (·.1 < key) ++ (key, value) :: m.entries.filter (key < ·.1)
  sorted := by
    refine List.pairwise_append.mpr ⟨m.sorted.filter _, List.pairwise_cons.mpr ⟨?_, m.sorted.filter _⟩,
      ?_⟩
    · intro entry hentry
      simpa using (List.mem_filter.mp hentry).2
    · intro a ha b hb
      have ha' : a.1 < key := by simpa using (List.mem_filter.mp ha).2
      rcases List.mem_cons.mp hb with rfl | hb
      · exact ha'
      · exact ha'.trans (by simpa using (List.mem_filter.mp hb).2)

def erase (key : κ) : SortedMap κ β := ⟨m.entries.filter (·.1 ≠ key), m.sorted.filter _⟩

/-- The map with its values changed. -/
def mapValues {γ : Type} (f : β → γ) : SortedMap κ γ where
  entries := m.entries.map fun entry => (entry.1, f entry.2)
  sorted := List.pairwise_map.mpr m.sorted

@[simp] theorem entries_empty : (empty : SortedMap κ β).entries = [] := rfl

theorem mem_entries_insert {key : κ} {value : β} {entry : κ × β} :
    entry ∈ (m.insert key value).entries ↔
      entry = (key, value) ∨ entry ∈ m.entries ∧ entry.1 ≠ key := by
  simp only [insert, List.mem_append, List.mem_filter, List.mem_cons, decide_eq_true_eq]
  constructor
  · rintro (⟨hentry, hlt⟩ | rfl | ⟨hentry, hlt⟩)
    · exact .inr ⟨hentry, hlt.ne⟩
    · exact .inl rfl
    · exact .inr ⟨hentry, hlt.ne'⟩
  · rintro (rfl | ⟨hentry, hne⟩)
    · exact .inr (.inl rfl)
    · rcases lt_or_gt_of_ne hne with hlt | hlt
      · exact .inl ⟨hentry, hlt⟩
      · exact .inr (.inr ⟨hentry, hlt⟩)

/-- An entry behind all others comes last. -/
theorem entries_insert_of_lt {key : κ} (h : ∀ entry ∈ m.entries, entry.1 < key) (value : β) :
    (m.insert key value).entries = m.entries ++ [(key, value)] := by
  have hbelow : m.entries.filter (·.1 < key) = m.entries :=
    List.filter_eq_self.mpr fun entry hentry => by simpa using h entry hentry
  have habove : m.entries.filter (key < ·.1) = [] :=
    List.filter_eq_nil_iff.mpr fun entry hentry => by simpa using (h entry hentry).le
  show m.entries.filter (·.1 < key) ++ (key, value) :: m.entries.filter (key < ·.1) = _
  rw [hbelow, habove]

/-- The map of a list of entries; the last entry of a key stays. -/
def ofEntries (entries : List (κ × β)) : SortedMap κ β :=
  entries.foldl (fun m entry => m.insert entry.1 entry.2) empty

theorem entries_foldl_insert {entries : List (κ × β)} {m : SortedMap κ β}
    (h : (m.entries ++ entries).Pairwise fun a b => a.1 < b.1) :
    (entries.foldl (fun m entry => m.insert entry.1 entry.2) m).entries = m.entries ++ entries := by
  induction entries generalizing m with
  | nil => simp
  | cons entry rest ih =>
    have hinsert := entries_insert_of_lt m (fun old hold =>
      (List.pairwise_append.mp h).2.2 old hold entry List.mem_cons_self) entry.2
    have hnext : ((m.insert entry.1 entry.2).entries ++ rest).Pairwise fun a b => a.1 < b.1 := by
      rw [hinsert]
      simpa using h
    rw [List.foldl_cons, ih hnext, hinsert]
    simp

theorem ext_entries {m m' : SortedMap κ β} (h : m.entries = m'.entries) : m = m' := by
  obtain ⟨entries, sorted⟩ := m
  obtain ⟨entries', sorted'⟩ := m'
  obtain rfl : entries = entries' := h
  rfl

/-- The entries of a map make it up again. -/
theorem ofEntries_entries : ofEntries m.entries = m :=
  ext_entries (@entries_foldl_insert _ _ _ m.entries empty m.sorted)

theorem mapValues_mapValues {γ δ : Type} (f : β → γ) (g : γ → δ) :
    (m.mapValues f).mapValues g = m.mapValues fun value => g (f value) :=
  ext_entries (by simp [mapValues])

theorem mapValues_id : (m.mapValues fun value => value) = m :=
  ext_entries (by simp [mapValues])

theorem mem_entries_erase {key : κ} {entry : κ × β} :
    entry ∈ (m.erase key).entries ↔ entry ∈ m.entries ∧ entry.1 ≠ key := by
  simp [erase]

/-- A lookup finds the one entry of its key. -/
theorem get_eq_some {key : κ} {value : β} : m.get key = some value ↔ (key, value) ∈ m.entries := by
  obtain ⟨entries, sorted⟩ := m
  unfold get
  dsimp only
  induction entries with
  | nil => simp
  | cons entry rest ih =>
    obtain ⟨first, hrest⟩ := List.pairwise_cons.mp sorted
    rw [List.find?_cons]
    by_cases hkey : entry.1 = key
    · rw [decide_eq_true hkey]
      obtain ⟨key', value'⟩ := entry
      obtain rfl : key' = key := hkey
      have hnot : (key', value) ∉ rest := fun hmem => absurd (first _ hmem) (lt_irrefl key')
      simp [hnot, eq_comm]
    · rw [decide_eq_false hkey, ih hrest]
      have hne : (key, value) ≠ entry := fun heq => hkey (by rw [← heq])
      simp [hne]

theorem get_isSome {key : κ} : (m.get key).isSome = true ↔ ∃ value, (key, value) ∈ m.entries := by
  rw [Option.isSome_iff_exists]
  exact exists_congr fun value => m.get_eq_some

@[simp] theorem get_insert_self (key : κ) (value : β) : (m.insert key value).get key = some value :=
  (m.insert key value).get_eq_some.mpr (m.mem_entries_insert.mpr (.inl rfl))

theorem get_insert_of_ne {key other : κ} (value : β) (h : other ≠ key) :
    (m.insert key value).get other = m.get other := by
  refine Option.ext fun found => ?_
  rw [get_eq_some, get_eq_some, mem_entries_insert]
  simp [h]

theorem mem_values {value : β} : value ∈ m.values ↔ ∃ key, (key, value) ∈ m.entries := by
  simp [values]

end SortedMap

end Lord
