import Lord.Ots.Format
import Lord.Storage.Rekey

/-! Which schema-3 stores the v4 migration rekeys cleanly, in whatever order it visits the roots. -/

namespace Lord.Storage

open Ots Writes V4MigrationAction

section

variable [OtsCodec] {ots : String → Option Bytes} {s t : StorageStore}

/-- A commitment with a proof file. -/
def StorageStore.Timestamped (s : StorageStore) (row : CommitmentMeta) : Prop :=
  s.getCommitment row.baoRoot = some row ∧ row.otsProofPath.isSome

/-- The old key of a row, empty when there is none. -/
def CommitmentMeta.oldKey (row : CommitmentMeta) : Bytes := row.otsOrderKey.getD []

omit [OtsCodec] in
theorem mem_rows {row : CommitmentMeta} : row ∈ s.rows ↔ s.getCommitment row.baoRoot = some row := by
  unfold StorageStore.rows StorageStore.getCommitment
  constructor
  · intro h
    obtain ⟨⟨key, found⟩, hmem, rfl⟩ := List.mem_map.mp h
    have hrow := Std.ExtTreeMap.mem_toList_iff_getElem?_eq_some.mp hmem
    rw [s.keyed key found hrow]
    exact hrow
  · intro h
    exact List.mem_map.mpr ⟨(row.baoRoot.val, row),
      Std.ExtTreeMap.mem_toList_iff_getElem?_eq_some.mpr h, rfl⟩

omit [OtsCodec] in
theorem nodup_rows (s : StorageStore) : (s.rows.map CommitmentMeta.baoRoot).Nodup := by
  unfold StorageStore.rows
  rw [List.map_map]
  refine List.Nodup.map_on ?_ ?_
  · rintro ⟨key, row⟩ hmem ⟨key', row'⟩ hmem' heq
    have hrow := Std.ExtTreeMap.mem_toList_iff_getElem?_eq_some.mp hmem
    have hrow' := Std.ExtTreeMap.mem_toList_iff_getElem?_eq_some.mp hmem'
    have hkey : key = key' := by
      rw [← s.keyed key row hrow, ← s.keyed key' row' hrow']
      exact congrArg Subtype.val heq
    subst hkey
    rw [hrow] at hrow'
    rw [Option.some.inj hrow']
  · exact (s.commitmentMeta.distinct_keys_toList).imp fun hne heq =>
      hne (by rw [heq]; exact Std.ReflCmp.compare_self)

theorem not_panics_of_proofKey {row : CommitmentMeta} {key : Bytes}
    (h : proofKey ots row = some key) : ¬Panics ots row := by
  rintro ⟨path, proof, message, hpath, hots, hpanic⟩
  rw [proofKey, hpath, Option.bind_some, hots, Option.bind_some, hpanic] at h
  cases h

/-- The actions planned for the rows of a store. -/
def planned (ots : String → Option Bytes) (s : StorageStore) : List V4MigrationAction :=
  s.rows.filterMap (plannedAction ots)

theorem mem_planned {action : V4MigrationAction} (h : action ∈ planned ots s) :
    ∃ row, s.Timestamped row ∧ action.baoRoot = row.baoRoot ∧ action.oldKey = row.oldKey ∧
      action.newKey = proofKey ots row := by
  obtain ⟨row, hrow, haction⟩ := List.mem_filterMap.mp h
  obtain ⟨hpath, hroot, hold, hnew⟩ := plannedAction_eq_some haction
  exact ⟨row, ⟨mem_rows.mp hrow, hpath⟩, hroot, hold, hnew⟩

theorem exists_planned {row : CommitmentMeta} (h : s.Timestamped row) :
    ∃ action ∈ planned ots s, action.baoRoot = row.baoRoot ∧ action.oldKey = row.oldKey ∧
      action.newKey = proofKey ots row := by
  obtain ⟨path, hpath⟩ := Option.isSome_iff_exists.mp h.2
  obtain ⟨action, haction⟩ : ∃ action, plannedAction ots row = some action := by
    simp [plannedAction, hpath]
  obtain ⟨-, hroot, hold, hnew⟩ := plannedAction_eq_some haction
  exact ⟨action, List.mem_filterMap.mpr ⟨row, mem_rows.mpr h.1, haction⟩, hroot, hold, hnew⟩

theorem fitAll_planned (ots : String → Option Bytes) (s : StorageStore) :
    FitAll s (planned ots s) := by
  constructor
  · intro action haction
    obtain ⟨row, hrow, hroot, hold, -⟩ := mem_planned haction
    exact ⟨row, by rw [hroot, hrow.1], hold.symm⟩
  · have hnodup := nodup_rows s
    unfold planned
    generalize s.rows = rows at hnodup
    induction rows with
    | nil => simp
    | cons row rows ih =>
      rw [List.map_cons, List.nodup_cons] at hnodup
      rw [List.filterMap_cons]
      cases hplan : plannedAction ots row with
      | none => exact ih hnodup.2
      | some action =>
        rw [List.map_cons, List.nodup_cons]
        refine ⟨fun hmem => ?_, ih hnodup.2⟩
        obtain ⟨other, hother, heq⟩ := List.mem_map.mp hmem
        obtain ⟨row', hrow', hplan'⟩ := List.mem_filterMap.mp hother
        obtain ⟨-, hroot, -, -⟩ := plannedAction_eq_some hplan
        obtain ⟨-, hroot', -, -⟩ := plannedAction_eq_some hplan'
        refine hnodup.1 (List.mem_map.mpr ⟨row', hrow', ?_⟩)
        rw [← hroot', heq, hroot]

omit [OtsCodec] in
/-- Two actions for one root are one. -/
theorem FitAll.unique {actions : List V4MigrationAction} (h : FitAll s actions)
    {a b : V4MigrationAction} (ha : a ∈ actions) (hb : b ∈ actions)
    (hroot : a.baoRoot = b.baoRoot) : a = b :=
  List.inj_on_of_nodup_map h.nodup ha hb hroot

omit [OtsCodec] in
theorem touches_flatMap_writes {actions : List V4MigrationAction} {key : Bytes} :
    Touches (actions.flatMap V4MigrationAction.writes) key ↔
      ∃ action ∈ actions, key ∈ storedKeys action.oldKey ∨ action.puts = some key := by
  simp only [Touches, List.mem_flatMap]
  constructor
  · rintro ⟨value, action, haction, hmem⟩
    exact ⟨action, haction, touches_writes.mp ⟨value, hmem⟩⟩
  · rintro ⟨action, haction, htouches⟩
    obtain ⟨value, hmem⟩ := touches_writes.mpr htouches
    exact ⟨value, action, haction, hmem⟩

/-! ### Rekeying in any order of the roots -/

/-- The forms in which a key may be stored; LMDB rejects empty keys. -/
def StoredForm (orderKey encodedKey : Bytes) : Prop :=
  encodeOrderKeyForLmdb orderKey = .ok encodedKey ∨
    orderKey.length ≤ maxOtsOrderPathLen ∧ encodedKey = legacyLengthPrefixed orderKey ∨
    encodedKey = orderKey ∧ orderKey ≠ []

/-- Each timestamped commitment has exactly one order row, for its old key; one without a key has
none. -/
def OneOldRow (s : StorageStore) : Prop :=
  ∀ row, s.Timestamped row →
    match row.otsOrderKey with
    | some oldKey => ∃ encodedKey, StoredForm oldKey encodedKey ∧
        ∀ key, s.orderRow key = some row.baoRoot ↔ key = encodedKey
    | none => ∀ key, s.orderRow key ≠ some row.baoRoot

/-- Readable proofs of different commitments have different keys. -/
def DistinctProofKeys (ots : String → Option Bytes) (s : StorageStore) : Prop :=
  ∀ row row' key, s.Timestamped row → s.Timestamped row' → proofKey ots row = some key →
    proofKey ots row' = some key → row = row'

/-- Each timestamped commitment has exactly the row of the key of its proof, or none when the proof
is missing or corrupt. -/
def Rekeyed (ots : String → Option Bytes) (s t : StorageStore) : Prop :=
  ∀ row, s.Timestamped row →
    match proofKey ots row with
    | some newKey => ∃ encodedKey, encodeOrderKeyForLmdb newKey = .ok encodedKey ∧
        ∀ key, t.orderRow key = some row.baoRoot ↔ key = encodedKey
    | none => ∀ key, t.orderRow key ≠ some row.baoRoot

/-- The migration succeeds and rekeys the store in whatever order the roots are iterated. -/
def RekeysInAnyOrder (ots : String → Option Bytes) (s : StorageStore) : Prop :=
  ∃ actions, v4Actions ots s.rows = .ok actions ∧
    ∀ order, order.Perm actions → ∃ t, applyV4Actions s order = .ok t ∧ Rekeyed ots s t

/-- No new key meets the old key of another root, a row of another root, or the row of an empty
key. -/
structure Rekeyable (ots : String → Option Bytes) (s : StorageStore) : Prop where
  /-- No proof makes the derivation of its key panic. -/
  noPanic : ∀ row, s.Timestamped row → ¬Panics ots row
  encodes : ∀ row newKey, s.Timestamped row → proofKey ots row = some newKey →
    ∃ encodedKey, encodeOrderKeyForLmdb newKey = .ok encodedKey
  /-- The row of a new key is free, the root's own or deleted with the root's old key. -/
  free : ∀ row newKey encodedKey owner, s.Timestamped row → proofKey ots row = some newKey →
    encodeOrderKeyForLmdb newKey = .ok encodedKey → s.orderRow encodedKey = some owner →
    owner = row.baoRoot ∨ encodedKey ∈ storedKeys row.oldKey
  /-- A new key is not deleted as the old key of another root. -/
  apart : ∀ row other newKey encodedKey, s.Timestamped row → s.Timestamped other → row ≠ other →
    proofKey ots row = some newKey → encodeOrderKeyForLmdb newKey = .ok encodedKey →
    encodedKey ∉ storedKeys other.oldKey
  /-- The row of an empty old key is the new row, or is deleted in place of the old key `[0]`. -/
  emptyKey : ∀ row, s.Timestamped row → row.otsOrderKey = some [] →
    proofKey ots row = some [] ∨ ∃ other, s.Timestamped other ∧ other.otsOrderKey = some [0]

omit [OtsCodec] in
/-- A stored form of a key is deleted with it, and that of the empty key is `[0]`. -/
theorem StoredForm.mem {orderKey encodedKey : Bytes} (h : StoredForm orderKey encodedKey) :
    encodedKey ∈ storedKeys orderKey ∨ orderKey = [] ∧ encodedKey = [0] := by
  by_cases hempty : orderKey = []
  · subst hempty
    rcases h with hencode | ⟨-, rfl⟩ | ⟨-, hne⟩
    · cases hencode
      exact .inr ⟨rfl, rfl⟩
    · exact .inr ⟨rfl, rfl⟩
    · exact absurd rfl hne
  · unfold storedKeys
    rw [if_neg hempty]
    rcases h with hencode | ⟨hlen, rfl⟩ | ⟨rfl, -⟩
    · simp [hencode, Except.toOption]
    · simp [hlen]
    · simp

omit [OtsCodec] in
theorem zero_mem_storedKeys {orderKey : Bytes} : [0] ∈ storedKeys orderKey ↔ orderKey = [0] := by
  constructor
  · intro h
    unfold storedKeys at h
    split at h
    · cases h
    rename_i hempty
    rcases List.mem_append.mp h with hencode | h
    · cases hresult : encodeOrderKeyForLmdb orderKey with
      | error err => simp [hresult, Except.toOption] at hencode
      | ok encodedKey =>
        simp only [hresult, Except.toOption, Option.toList_some, List.mem_singleton] at hencode
        rw [← hencode] at hresult
        exact absurd (encodeOrderKeyForLmdb_injective hresult rfl) hempty
    · rcases List.mem_append.mp h with hlegacy | hraw
      · split at hlegacy
        · simp only [legacyLengthPrefixed, List.mem_singleton, List.cons.injEq] at hlegacy
          exact absurd hlegacy.2.symm hempty
        · cases hlegacy
      · exact (List.mem_singleton.mp hraw).symm
  · rintro rfl
    decide

omit [OtsCodec] in
theorem oldKey_eq_zero {row : CommitmentMeta} (h : row.oldKey = [0]) :
    row.otsOrderKey = some [0] := by
  unfold CommitmentMeta.oldKey at h
  cases horder : row.otsOrderKey with
  | none =>
    rw [horder] at h
    cases h
  | some key =>
    rw [horder] at h
    exact congrArg some h

/-- The row of a timestamped commitment is written to by some action. -/
theorem touches_oldRow (hold : OneOldRow s)
    (hempty : ∀ row, s.Timestamped row → row.otsOrderKey = some [] →
      proofKey ots row = some [] ∨ ∃ other, s.Timestamped other ∧ other.otsOrderKey = some [0])
    {row : CommitmentMeta} (hrow : s.Timestamped row) {key : Bytes}
    (hkey : s.orderRow key = some row.baoRoot) :
    Touches ((planned ots s).flatMap V4MigrationAction.writes) key := by
  rw [touches_flatMap_writes]
  obtain ⟨action, haction, hroot, hactionOld, hnew⟩ := @exists_planned _ ots _ _ hrow
  have hone := hold row hrow
  cases horder : row.otsOrderKey with
  | none =>
    rw [horder] at hone
    exact absurd hkey (hone key)
  | some oldKey =>
    rw [horder] at hone
    obtain ⟨encodedKey, hform, honly⟩ := hone
    obtain rfl := (honly key).mp hkey
    have hrowOld : row.oldKey = oldKey := by simp [CommitmentMeta.oldKey, horder]
    rcases hform.mem with hmem | ⟨rfl, rfl⟩
    · exact ⟨action, haction, .inl (by rwa [hactionOld, hrowOld])⟩
    · rcases hempty row hrow horder with hproof | ⟨other, hother, hzero⟩
      · exact ⟨action, haction, .inr (puts_eq_some.mpr ⟨[], by rw [hnew, hproof], rfl⟩)⟩
      · obtain ⟨action', haction', -, hold', -⟩ := @exists_planned _ ots _ _ hother
        refine ⟨action', haction', .inl (zero_mem_storedKeys.mpr ?_)⟩
        rw [hold', CommitmentMeta.oldKey, hzero, Option.getD_some]

/-- Actions that put one encoded key are one. -/
theorem puts_unique (hdistinct : DistinctProofKeys ots s) {a b : V4MigrationAction}
    (ha : a ∈ planned ots s) (hb : b ∈ planned ots s) {encodedKey : Bytes}
    (hputsA : a.puts = some encodedKey) (hputsB : b.puts = some encodedKey) : a = b := by
  obtain ⟨row, hrow, hroot, -, hnew⟩ := mem_planned ha
  obtain ⟨row', hrow', hroot', -, hnew'⟩ := mem_planned hb
  obtain ⟨key, hkey, hencode⟩ := puts_eq_some.mp hputsA
  obtain ⟨key', hkey', hencode'⟩ := puts_eq_some.mp hputsB
  obtain rfl := encodeOrderKeyForLmdb_injective hencode hencode'
  have hsame := hdistinct row row' key hrow hrow' (hnew ▸ hkey) (hnew' ▸ hkey')
  exact (fitAll_planned ots s).unique ha hb (by rw [hroot, hroot', hsame])

section

variable {order : List V4MigrationAction}

/-- No action of a rekeyable store but its own touches the row of a new key. -/
theorem Rekeyable.not_touches (h : Rekeyable ots s) (hdistinct : DistinctProofKeys ots s)
    {others : List V4MigrationAction} (hsub : ∀ b ∈ others, b ∈ planned ots s)
    {a : V4MigrationAction} (ha : a ∈ planned ots s) (hnot : a ∉ others) {encodedKey : Bytes}
    (hputs : a.puts = some encodedKey) :
    ¬Touches (others.flatMap V4MigrationAction.writes) encodedKey := by
  rw [touches_flatMap_writes]
  rintro ⟨b, hb, hdeletes | hputsB⟩
  · obtain ⟨row, hrow, hroot, -, hnew⟩ := mem_planned ha
    obtain ⟨other, hother, hroot', hold', -⟩ := mem_planned (hsub b hb)
    obtain ⟨newKey, hnewKey, hencode⟩ := puts_eq_some.mp hputs
    have hne : row ≠ other := by
      rintro rfl
      have hsame := (fitAll_planned ots s).unique ha (hsub b hb) (hroot.trans hroot'.symm)
      exact hnot (hsame ▸ hb)
    rw [hold'] at hdeletes
    exact h.apart row other newKey encodedKey hrow hother hne (hnew ▸ hnewKey) hencode hdeletes
  · exact hnot (puts_unique hdistinct ha (hsub b hb) hputs hputsB ▸ hb)

theorem Rekeyable.putsFreely (h : Rekeyable ots s) (hdistinct : DistinctProofKeys ots s)
    (hperm : order.Perm (planned ots s)) {front back : List V4MigrationAction}
    {a : V4MigrationAction} (hsplit : order = front ++ a :: back) :
    a.PutsFreely (applyAll s.orderRow (front.flatMap V4MigrationAction.writes)) := by
  intro newKey hnewKey
  have hmem : ∀ b ∈ order, b ∈ planned ots s := fun b hb => hperm.mem_iff.mp hb
  have ha : a ∈ planned ots s := hmem a (by simp [hsplit])
  obtain ⟨row, hrow, hroot, hold, hnew⟩ := mem_planned ha
  obtain ⟨encodedKey, hencode⟩ := h.encodes row newKey hrow (hnew ▸ hnewKey)
  refine ⟨encodedKey, hencode, fun owner howner => ?_⟩
  have hnodup : (front ++ a :: back).Nodup :=
    hsplit ▸ List.Nodup.of_map _ ((fitAll_planned ots s).perm hperm).nodup
  have hnot : a ∉ front := by
    intro hfront
    exact (List.disjoint_of_nodup_append hnodup) hfront (by simp)
  rw [deletes, applyAll_deletes] at howner
  split at howner
  · cases howner
  · rename_i hkept
    rw [applyAll_of_not_touches (h.not_touches hdistinct
      (fun b hb => hmem b (by simp [hsplit, hb])) ha hnot
      (puts_eq_some.mpr ⟨newKey, hnewKey, hencode⟩))] at howner
    rw [hold] at hkept
    rw [hroot]
    exact (h.free row newKey encodedKey owner hrow (hnew ▸ hnewKey) hencode howner).resolve_right
      hkept

theorem Rekeyable.rekeyed (h : Rekeyable ots s) (hold : OneOldRow s)
    (hdistinct : DistinctProofKeys ots s) (hperm : order.Perm (planned ots s))
    (hok : applyV4Actions s order = .ok t) : Rekeyed ots s t := by
  have hfit := (fitAll_planned ots s).perm hperm
  have horder := (applyV4Actions_eq_ok hfit hok).1
  -- a row of a commitment is the one that its own action has put
  have hown : ∀ row a, s.Timestamped row → a ∈ order → a.baoRoot = row.baoRoot →
      ∀ key, t.orderRow key = some row.baoRoot → a.puts = some key := by
    intro row a hrow ha hroot key hkey
    rw [horder] at hkey
    rcases applyAll_eq_or s.orderRow (order.flatMap V4MigrationAction.writes) key with
      ⟨hnot, heq⟩ | hmem
    · rw [heq] at hkey
      have htouches := touches_oldRow hold h.emptyKey hrow hkey
      rw [touches_flatMap_writes] at htouches hnot
      obtain ⟨b, hb, htouch⟩ := htouches
      exact absurd ⟨b, hperm.mem_iff.mpr hb, htouch⟩ hnot
    · rw [hkey] at hmem
      obtain ⟨b, hb, hwrite⟩ := List.mem_flatMap.mp hmem
      obtain ⟨hputs, hrootB⟩ := mem_writes_some.mp hwrite
      rwa [← hfit.unique hb ha (by rw [hrootB, hroot])]
  intro row hrow
  obtain ⟨a, ha, hroot, -, hnew⟩ := @exists_planned _ ots _ _ hrow
  have haOrder : a ∈ order := hperm.mem_iff.mpr ha
  cases hproof : proofKey ots row with
  | none =>
    intro key hkey
    have hputs := hown row a hrow haOrder hroot key hkey
    obtain ⟨newKey, hnewKey, -⟩ := puts_eq_some.mp hputs
    rw [hnew, hproof] at hnewKey
    cases hnewKey
  | some newKey =>
    obtain ⟨encodedKey, hencode⟩ := h.encodes row newKey hrow hproof
    have hputs : a.puts = some encodedKey := puts_eq_some.mpr ⟨newKey, hnew ▸ hproof, hencode⟩
    refine ⟨encodedKey, hencode, fun key => ⟨fun hkey => ?_, ?_⟩⟩
    · have hputs' := hown row a hrow haOrder hroot key hkey
      rw [hputs] at hputs'
      exact (Option.some.inj hputs').symm
    · rintro rfl
      obtain ⟨front, back, hsplit⟩ := List.append_of_mem haOrder
      have hnodup : (front ++ a :: back).Nodup := hsplit ▸ List.Nodup.of_map _ hfit.nodup
      have hnot : a ∉ back := (List.nodup_cons.mp (List.nodup_append.mp hnodup).2.1).1
      have hback := h.not_touches hdistinct
        (fun b hb => hperm.mem_iff.mp (by simp [hsplit, hb])) ha hnot hputs
      have hlist : order.flatMap V4MigrationAction.writes =
          (front.flatMap V4MigrationAction.writes ++ a.deletes) ++
            (key, some a.baoRoot) :: back.flatMap V4MigrationAction.writes := by
        rw [hsplit, List.flatMap_append, List.flatMap_cons, writes, hputs]
        simp
      rw [horder, hlist, applyAll_of_last hback, hroot]

/-- A store that is rekeyed in every order of its roots is rekeyable. -/
theorem RekeysInAnyOrder.rekeyable (h : RekeysInAnyOrder ots s) (hold : OneOldRow s)
    (hdistinct : DistinctProofKeys ots s) : Rekeyable ots s := by
  obtain ⟨actions, hactions, hall⟩ := h
  obtain ⟨hpanics, rfl⟩ := v4Actions_eq_ok.mp hactions
  change ∀ order, List.Perm order (planned ots s) → _ at hall
  have hfit : ∀ order : List V4MigrationAction, order.Perm (planned ots s) → FitAll s order :=
    fun order hperm => (fitAll_planned ots s).perm hperm
  obtain ⟨t, ht, hrekeyed⟩ := hall _ (List.Perm.refl _)
  have hencodes : ∀ row newKey, s.Timestamped row → proofKey ots row = some newKey →
      ∃ encodedKey, encodeOrderKeyForLmdb newKey = .ok encodedKey := by
    intro row newKey hrow hproof
    have hone := hrekeyed row hrow
    rw [hproof] at hone
    obtain ⟨encodedKey, hencode, -⟩ := hone
    exact ⟨encodedKey, hencode⟩
  -- the root goes first
  have hfree : ∀ row newKey encodedKey owner, s.Timestamped row →
      proofKey ots row = some newKey → encodeOrderKeyForLmdb newKey = .ok encodedKey →
      s.orderRow encodedKey = some owner →
      owner = row.baoRoot ∨ encodedKey ∈ storedKeys row.oldKey := by
    intro row newKey encodedKey owner hrow hproof hencode howner
    obtain ⟨a, ha, hroot, hactionOld, hnew⟩ := @exists_planned _ ots _ _ hrow
    have hperm := (List.perm_cons_erase ha).symm
    obtain ⟨u, hu, -⟩ := hall _ hperm
    obtain ⟨encodedKey', hencode', hputs⟩ :=
      (applyV4Actions_isOk_iff (hfit _ hperm)).mp ⟨u, hu⟩ [] a _ rfl newKey (hnew ▸ hproof)
    rw [hencode] at hencode'
    cases hencode'
    by_cases hmem : encodedKey ∈ storedKeys row.oldKey
    · exact .inr hmem
    · refine .inl ((hputs owner ?_).trans hroot)
      rw [deletes, applyAll_deletes, hactionOld, if_neg hmem]
      exact howner
  refine ⟨fun row hrow => hpanics row (mem_rows.mpr hrow.1), hencodes, hfree, ?_, ?_⟩
  · -- the other root goes last and deletes the new row
    intro row other newKey encodedKey hrow hother hne hproof hencode hmem
    obtain ⟨a, ha, hroot, -, hnew⟩ := @exists_planned _ ots _ _ hrow
    obtain ⟨b, hb, hrootB, holdB, -⟩ := @exists_planned _ ots _ _ hother
    have hperm : ((planned ots s).erase b ++ [b]).Perm (planned ots s) :=
      List.perm_append_comm.trans (List.perm_cons_erase hb).symm
    obtain ⟨u, hu, hlast⟩ := hall _ hperm
    have hone := hlast row hrow
    rw [hproof] at hone
    obtain ⟨encodedKey', hencode', honly⟩ := hone
    rw [hencode] at hencode'
    cases hencode'
    have hkey := (honly encodedKey).mpr rfl
    have hputs : a.puts = some encodedKey := puts_eq_some.mpr ⟨newKey, hnew ▸ hproof, hencode⟩
    have hputsB : b.puts ≠ some encodedKey := by
      intro hputsB
      have hsame := puts_unique hdistinct ha hb hputs hputsB
      rw [hsame, hrootB] at hroot
      have hrowEq := hother.1
      rw [hroot, hrow.1] at hrowEq
      exact hne (Option.some.inj hrowEq)
    rw [(applyV4Actions_eq_ok (hfit _ hperm) hu).1, List.flatMap_append, List.flatMap_singleton,
      writes, applyAll_append, applyAll_append, applyAll_of_not_touches, deletes, applyAll_deletes,
      holdB, if_pos hmem] at hkey
    · cases hkey
    · rintro ⟨value, hvalue⟩
      obtain ⟨key, hkey', heq⟩ := List.mem_map.mp hvalue
      obtain ⟨rfl, -⟩ := Prod.mk.inj heq
      exact hputsB (Option.mem_toList.mp hkey')
  · intro row hrow horder
    by_contra hnot
    rw [not_or] at hnot
    have hone := hold row hrow
    rw [horder] at hone
    obtain ⟨zero, hform, hone⟩ := hone
    have hzero : zero = [0] := by
      rcases hform.mem with hmem | ⟨-, hzero⟩
      · cases hmem
      · exact hzero
    have hrowZero : s.orderRow [0] = some row.baoRoot := (hone [0]).mpr hzero.symm
    have htable := (applyV4Actions_eq_ok (hfit _ (List.Perm.refl _)) ht).1
    by_cases htouches : Touches ((planned ots s).flatMap V4MigrationAction.writes) [0]
    · rw [touches_flatMap_writes] at htouches
      obtain ⟨b, hb, hmem | hputs⟩ := htouches
      · obtain ⟨other, hother, -, holdB, -⟩ := mem_planned hb
        rw [zero_mem_storedKeys, holdB] at hmem
        exact hnot.2 ⟨other, hother, oldKey_eq_zero hmem⟩
      · obtain ⟨other, hother, hrootB, holdB, hnewB⟩ := mem_planned hb
        obtain ⟨newKey, hnewKey, hencode⟩ := puts_eq_some.mp hputs
        obtain rfl : newKey = [] := encodeOrderKeyForLmdb_injective hencode rfl
        have hproof : proofKey ots other = some [] := hnewB ▸ hnewKey
        rcases hfree other [] [0] row.baoRoot hother hproof rfl hrowZero with hroot | hmem
        · have hsame := hother.1
          rw [← hroot, hrow.1] at hsame
          cases hsame
          exact hnot.1 hproof
        · rw [zero_mem_storedKeys] at hmem
          exact hnot.2 ⟨other, hother, oldKey_eq_zero hmem⟩
    · have hkept : t.orderRow [0] = some row.baoRoot := by
        rw [htable, applyAll_of_not_touches htouches, hrowZero]
      have hafter := hrekeyed row hrow
      cases hproof : proofKey ots row with
      | none =>
        rw [hproof] at hafter
        exact hafter [0] hkept
      | some newKey =>
        rw [hproof] at hafter
        obtain ⟨encodedKey, hencode, honly⟩ := hafter
        obtain rfl := (honly [0]).mp hkept
        obtain rfl : newKey = [] := encodeOrderKeyForLmdb_injective hencode rfl
        exact hnot.1 hproof

end

/-- A store with one old row for each commitment and different keys in its proofs is cleanly rekeyed
in every order of its roots exactly when it is rekeyable. -/
theorem rekeysInAnyOrder_iff (hold : OneOldRow s) (hdistinct : DistinctProofKeys ots s) :
    RekeysInAnyOrder ots s ↔ Rekeyable ots s := by
  constructor
  · exact fun h => h.rekeyable hold hdistinct
  · intro h
    refine ⟨planned ots s, v4Actions_eq_ok.mpr
      ⟨fun row hrow hpanics => ?_, rfl⟩, fun order hperm => ?_⟩
    · have hpath : row.otsProofPath.isSome := by
        obtain ⟨path, -, -, hpath, -⟩ := hpanics
        simp [hpath]
      exact h.noPanic row ⟨mem_rows.mp hrow, hpath⟩ hpanics
    · obtain ⟨t, ht⟩ := (applyV4Actions_isOk_iff ((fitAll_planned ots s).perm hperm)).mpr
        fun front a back hsplit => h.putsFreely hdistinct hperm hsplit
      exact ⟨t, ht, h.rekeyed hold hdistinct hperm ht⟩

end

section

attribute [local instance] Format.sha256Digests Format.sha256Codec

def forkedRoot : Bytes32 := Bytes32.replicate 1

def pendingRoot : Bytes32 := Bytes32.replicate 2

def pendingStep : Step := .mk (.attestation (.pending "https://calendar.example")) [] []

/-- A proof with the order key `[0]`, and one with the empty order key. -/
def migrationOts : String → Option Bytes
  | "ots/1.ots" => (OtsCodec.toWriter ⟨.sha256, ⟨forkedRoot.val,
      .mk .fork [] [pendingStep, pendingStep]⟩⟩).toOption
  | "ots/2.ots" => (OtsCodec.toWriter ⟨.sha256, ⟨pendingRoot.val, pendingStep⟩⟩).toOption
  | _ => none

def forkedRow : CommitmentMeta :=
  { CommitmentMeta.new forkedRoot "1.c12" 12 .inboard 0 with
    otsProofPath := some "ots/1.ots", otsOrderKey := some [9], timestampedAt := some 0 }

def pendingRow (oldKey : Bytes) : CommitmentMeta :=
  { CommitmentMeta.new pendingRoot "2.c12" 12 .inboard 0 with
    otsProofPath := some "ots/2.ots", otsOrderKey := some oldKey, timestampedAt := some 0 }

/-- A schema-3 store with two commitments, the second with an old key of one byte. -/
def schema3Store (byte : UInt8) : StorageStore :=
  (((StorageStore.empty.putCommitment forkedRow).putCommitment (pendingRow [byte])).putOrderRow
    [10, 0] forkedRoot).putOrderRow [byte + 1, 0] pendingRoot

theorem schema3Store_timestamped {byte : UInt8} {row : CommitmentMeta}
    (h : (schema3Store byte).Timestamped row) : row = forkedRow ∨ row = pendingRow [byte] := by
  have hget := h.1
  unfold schema3Store at hget
  rw [StorageStore.getCommitment_putOrderRow, StorageStore.getCommitment_putOrderRow,
    StorageStore.getCommitment_putCommitment] at hget
  split at hget
  · exact .inr (Option.some.inj hget).symm
  · rw [StorageStore.getCommitment_putCommitment] at hget
    split at hget
    · exact .inl (Option.some.inj hget).symm
    · simp [StorageStore.getCommitment, StorageStore.empty] at hget

theorem schema3Store_orderRow (byte : UInt8) (key : Bytes) :
    (schema3Store byte).orderRow key = if [byte + 1, 0] = key then some pendingRoot else
      if [10, 0] = key then some forkedRoot else none := by
  unfold schema3Store
  rw [StorageStore.orderRow_putOrderRow, StorageStore.orderRow_putOrderRow]
  rfl

theorem schema3Store_oneOldRow {byte : UInt8} (hbyte : byte ≠ 255) (hother : byte + 1 ≠ 10) :
    OneOldRow (schema3Store byte) := by
  intro row hrow
  rcases schema3Store_timestamped hrow with rfl | rfl
  · refine ⟨[10, 0], .inl rfl, fun key => ?_⟩
    rw [schema3Store_orderRow]
    constructor
    · intro hkey
      split at hkey
      · exact absurd (Option.some.inj hkey) (by decide)
      · split at hkey
        · rename_i heq
          exact heq.symm
        · cases hkey
    · rintro rfl
      have hne : [byte + 1, 0] ≠ ([10, 0] : Bytes) := by simpa using hother
      rw [if_neg hne, if_pos rfl]
      rfl
  · refine ⟨[byte + 1, 0], .inl ?_, fun key => ?_⟩
    · refine encodeOrderKeyForLmdb_eq_ok.mpr (.inr ⟨?_, ?_, ?_, rfl⟩)
      · intro heq
        simp [noAttestationSentinel] at heq
      · simp [maxOtsOrderPathLen]
      · simpa using hbyte
    · rw [schema3Store_orderRow]
      constructor
      · intro hkey
        split at hkey
        · rename_i heq
          exact heq.symm
        · split at hkey
          · exact absurd (Option.some.inj hkey) (show forkedRoot ≠ pendingRoot by decide)
          · cases hkey
      · rintro rfl
        rw [if_pos rfl]
        rfl

theorem proofKey_forkedRow : proofKey migrationOts forkedRow = some [0] := by
  decide +kernel

theorem proofKey_pendingRow (byte : UInt8) :
    proofKey migrationOts (pendingRow [byte]) = some [] := by
  show proofKey migrationOts (pendingRow [0]) = some []
  decide +kernel

theorem schema3Store_distinct (byte : UInt8) :
    DistinctProofKeys migrationOts (schema3Store byte) := by
  intro row row' key hrow hrow' hkey hkey'
  rcases schema3Store_timestamped hrow with rfl | rfl
  · rcases schema3Store_timestamped hrow' with rfl | rfl
    · rfl
    · rw [proofKey_forkedRow] at hkey
      rw [proofKey_pendingRow] at hkey'
      cases hkey
      cases hkey'
  · rcases schema3Store_timestamped hrow' with rfl | rfl
    · rw [proofKey_pendingRow] at hkey
      rw [proofKey_forkedRow] at hkey'
      cases hkey
      cases hkey'
    · rfl

/-- The new key of one commitment is the old key of another that is migrated later. -/
theorem schema3Store_not_rekeyed :
    OneOldRow (schema3Store 0) ∧ DistinctProofKeys migrationOts (schema3Store 0) ∧
      ¬RekeysInAnyOrder migrationOts (schema3Store 0) := by
  have hold : OneOldRow (schema3Store 0) := schema3Store_oneOldRow (by decide) (by decide)
  refine ⟨hold, schema3Store_distinct 0, fun hrekeys => ?_⟩
  have hrow : (schema3Store 0).Timestamped forkedRow := ⟨by decide +kernel, rfl⟩
  have hrekeyable := hrekeys.rekeyable hold (schema3Store_distinct 0)
  rcases hrekeyable.free forkedRow [0] [1, 0] pendingRoot hrow proofKey_forkedRow rfl
    (by rw [schema3Store_orderRow]; rfl) with hroot | hmem
  · exact absurd hroot (by decide)
  · exact absurd hmem (by decide)

theorem schema3Store_rekeyed : RekeysInAnyOrder migrationOts (schema3Store 7) := by
  refine (rekeysInAnyOrder_iff (schema3Store_oneOldRow (by decide) (by decide))
    (schema3Store_distinct 7)).mpr ⟨?_, ?_, ?_, ?_, ?_⟩
  · intro row hrow
    rcases schema3Store_timestamped hrow with rfl | rfl
    · exact not_panics_of_proofKey proofKey_forkedRow
    · exact not_panics_of_proofKey (proofKey_pendingRow 7)
  · intro row newKey hrow hproof
    rcases schema3Store_timestamped hrow with rfl | rfl
    · rw [proofKey_forkedRow] at hproof
      cases hproof
      exact ⟨_, rfl⟩
    · rw [proofKey_pendingRow] at hproof
      cases hproof
      exact ⟨_, rfl⟩
  · intro row newKey encodedKey owner hrow hproof hencode howner
    exfalso
    have hnone : (schema3Store 7).orderRow encodedKey = none := by
      rcases schema3Store_timestamped hrow with rfl | rfl
      · rw [proofKey_forkedRow] at hproof
        cases hproof
        cases hencode
        rw [schema3Store_orderRow]
        rfl
      · rw [proofKey_pendingRow] at hproof
        cases hproof
        cases hencode
        rw [schema3Store_orderRow]
        rfl
    rw [hnone] at howner
    cases howner
  · intro row other newKey encodedKey hrow hother hne hproof hencode
    rcases schema3Store_timestamped hrow with rfl | rfl
    · rw [proofKey_forkedRow] at hproof
      cases hproof
      cases hencode
      rcases schema3Store_timestamped hother with rfl | rfl
      · decide
      · decide
    · rw [proofKey_pendingRow] at hproof
      cases hproof
      cases hencode
      rcases schema3Store_timestamped hother with rfl | rfl
      · decide
      · decide
  · intro row hrow horder
    rcases schema3Store_timestamped hrow with rfl | rfl
    · cases horder
    · cases horder

end

end Lord.Storage
