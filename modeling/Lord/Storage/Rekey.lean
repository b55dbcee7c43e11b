import Lord.Lib.Writes
import Lord.Storage.Migration

/-! The v4 migration as writes to `COMMITMENT_ORDER`: when its transaction succeeds, what it leaves,
and for which stores it is a clean rekeying in every order of the roots. -/

namespace Lord.Storage

open Ots Writes

namespace V4MigrationAction

def baoRoot : V4MigrationAction → Bytes32
  | rekey baoRoot _ _ => baoRoot
  | clearStale baoRoot _ => baoRoot

def oldKey : V4MigrationAction → Bytes
  | rekey _ oldKey _ => oldKey
  | clearStale _ oldKey => oldKey

/-- The key that the row of the root gets. -/
def newKey : V4MigrationAction → Option Bytes
  | rekey _ _ newKey => some newKey
  | clearStale _ _ => none

/-- The deletes of the action. -/
def deletes (action : V4MigrationAction) : List (Bytes × Option Bytes32) :=
  (storedKeys action.oldKey).map fun key => (key, none)

/-- The encoded key that the action puts. -/
def puts (action : V4MigrationAction) : Option Bytes :=
  action.newKey.bind fun key => (encodeOrderKeyForLmdb key).toOption

/-- The writes of the action to `COMMITMENT_ORDER`. -/
def writes (action : V4MigrationAction) : List (Bytes × Option Bytes32) :=
  action.deletes ++ action.puts.toList.map fun key => (key, some action.baoRoot)

/-- The action is for a row of the store with this old key. -/
def Fits (s : StorageStore) (action : V4MigrationAction) : Prop :=
  ∃ row, s.getCommitment action.baoRoot = some row ∧ row.otsOrderKey.getD [] = action.oldKey

/-- In a store with this index the new key has an encoding whose row is free or the root's own, once
the old key is deleted. -/
def PutsFreely (action : V4MigrationAction) (index : Bytes → Option Bytes32) : Prop :=
  ∀ key, action.newKey = some key → ∃ encodedKey, encodeOrderKeyForLmdb key = .ok encodedKey ∧
    ∀ owner, applyAll index action.deletes encodedKey = some owner → owner = action.baoRoot

theorem puts_eq_some {action : V4MigrationAction} {encodedKey : Bytes} :
    action.puts = some encodedKey ↔
      ∃ key, action.newKey = some key ∧ encodeOrderKeyForLmdb key = .ok encodedKey := by
  have htoOption : ∀ r : Result Bytes, r.toOption = some encodedKey ↔ r = .ok encodedKey := by
    intro r
    cases r <;> simp [Except.toOption]
  simp [puts, Option.bind_eq_some_iff, htoOption]

/-- An action writes to the stored forms of its old key and to its new key. -/
theorem touches_writes {action : V4MigrationAction} {key : Bytes} :
    Touches action.writes key ↔ key ∈ storedKeys action.oldKey ∨ action.puts = some key := by
  simp [Touches, writes, deletes, exists_or, eq_comm]

theorem mem_writes_some {action : V4MigrationAction} {key : Bytes} {owner : Bytes32} :
    (key, some owner) ∈ action.writes ↔ action.puts = some key ∧ action.baoRoot = owner := by
  simp [writes, deletes]

end V4MigrationAction

open V4MigrationAction

theorem orderRow_deleteStored (s : StorageStore) (orderKey : Bytes) :
    (s.deleteStoredCommitmentOrderKeys orderKey).orderRow =
      applyAll s.orderRow ((storedKeys orderKey).map fun key => (key, none)) := by
  unfold StorageStore.deleteStoredCommitmentOrderKeys
  induction storedKeys orderKey generalizing s with
  | nil => rfl
  | cons key keys ih =>
    have hdelete : (s.deleteOrderRow key).orderRow = Function.update s.orderRow key none := by
      funext k
      rw [StorageStore.orderRow_deleteOrderRow]
      by_cases hkey : k = key
      · simp [hkey]
      · simp [hkey, Ne.symm hkey]
    rw [List.foldl_cons, ih, List.map_cons, applyAll_cons, hdelete]

@[simp] theorem getCommitment_deleteStored (s : StorageStore) (orderKey : Bytes) (r : Bytes32) :
    (s.deleteStoredCommitmentOrderKeys orderKey).getCommitment r = s.getCommitment r := by
  unfold StorageStore.deleteStoredCommitmentOrderKeys
  induction storedKeys orderKey generalizing s with
  | nil => rfl
  | cons key keys ih => rw [List.foldl_cons, ih, StorageStore.getCommitment_deleteOrderRow]

/-- A put succeeds when the key has an encoding whose row is free or the root's own. -/
theorem putCommitmentOrder_eq_ok {s t : StorageStore} {orderKey : Bytes} {baoRoot : Bytes32} :
    s.putCommitmentOrder orderKey baoRoot = .ok t ↔
      ∃ encodedKey, encodeOrderKeyForLmdb orderKey = .ok encodedKey ∧
        (∀ owner, s.orderRow encodedKey = some owner → owner = baoRoot) ∧
        t = s.putOrderRow encodedKey baoRoot := by
  unfold StorageStore.putCommitmentOrder
  cases encodeOrderKeyForLmdb orderKey with
  | error err => simp
  | ok encodedKey =>
    cases hrow : s.orderRow encodedKey with
    | none => simp [hrow, eq_comm]
    | some existing =>
      by_cases hexisting : existing = baoRoot
      · simp [hrow, hexisting, eq_comm]
      · have hnot : ¬∀ owner, some existing = some owner → owner = baoRoot :=
          fun hall => hexisting (hall existing rfl)
        simp only [hrow, ne_eq, hexisting, not_false_eq_true, if_true, Except.ok.injEq,
          exists_eq_left', hnot, false_and, reduceCtorEq]

/-- The rows after the key of one of them is set. -/
theorem getCommitment_setKey {s t : StorageStore} {row : CommitmentMeta} {key : Option Bytes}
    (hrow : s.getCommitment row.baoRoot = some row)
    (h : t = s.putCommitment { row with otsOrderKey := key } ∨ t = s ∧ row.otsOrderKey = key)
    (r : Bytes32) :
    t.getCommitment r = if row.baoRoot = r then
      (s.getCommitment r).map fun row => { row with otsOrderKey := key } else s.getCommitment r := by
  rcases h with rfl | ⟨rfl, rfl⟩
  · rw [StorageStore.getCommitment_putCommitment]
    split
    · rename_i hr
      rw [← hr, hrow]
      rfl
    · rfl
  · split
    · rename_i hr
      rw [← hr, hrow]
      rfl
    · rfl

/-- An action sets the key of its row, deletes the old key and puts the new one. -/
theorem applyV4Action_eq {s : StorageStore} {action : V4MigrationAction} (h : action.Fits s) :
    ∃ u : StorageStore, u.orderRow = s.orderRow ∧
      (∀ r, u.getCommitment r = if action.baoRoot = r then
        (s.getCommitment r).map fun row => { row with otsOrderKey := action.newKey }
        else s.getCommitment r) ∧
      applyV4Action s action = match action.newKey with
        | none => .ok (u.deleteStoredCommitmentOrderKeys action.oldKey)
        | some newKey => ((u.deleteStoredCommitmentOrderKeys action.oldKey).putCommitmentOrder
            newKey action.baoRoot).context
              s!"v4 migration put order key for {Hex.encode action.baoRoot.val}" := by
  obtain ⟨row, hrow, hold⟩ := h
  have hroot := StorageStore.baoRoot_of_getCommitment hrow
  rw [← hroot] at hrow
  cases action with
  | rekey baoRoot oldKey newKey =>
    dsimp only [V4MigrationAction.baoRoot, V4MigrationAction.oldKey] at hroot hold
    subst hroot
    have hsame : ¬(row.otsOrderKey.isSome ∧ row.otsOrderKey ≠ some oldKey) := by
      rintro ⟨hsome, hne⟩
      obtain ⟨key, hkey⟩ := Option.isSome_iff_exists.mp hsome
      rw [hkey] at hold hne
      exact hne (congrArg some hold)
    refine ⟨if row.otsOrderKey ≠ some newKey then
      s.putCommitment { row with otsOrderKey := some newKey } else s, ?_, ?_, ?_⟩
    · split <;> rfl
    · refine getCommitment_setKey hrow ?_
      by_cases hkey : row.otsOrderKey = some newKey
      · exact .inr ⟨by rw [if_neg (not_not.mpr hkey)], hkey⟩
      · exact .inl (by rw [if_pos hkey]; rfl)
    · simp only [applyV4Action, hrow, hsame, if_false, V4MigrationAction.newKey,
        V4MigrationAction.oldKey, V4MigrationAction.baoRoot]
  | clearStale baoRoot oldKey =>
    dsimp only [V4MigrationAction.baoRoot, V4MigrationAction.oldKey] at hroot hold
    subst hroot
    refine ⟨if row.otsOrderKey.isSome then
      s.putCommitment { row with otsOrderKey := none } else s, ?_, ?_, ?_⟩
    · split <;> rfl
    · refine getCommitment_setKey hrow ?_
      cases hkey : row.otsOrderKey with
      | none => exact .inr ⟨by simp, rfl⟩
      | some key => exact .inl (by simp [V4MigrationAction.newKey])
    · simp only [applyV4Action, hrow, V4MigrationAction.newKey, V4MigrationAction.oldKey]

/-- An action succeeds exactly when it puts freely. -/
theorem applyV4Action_isOk_iff {s : StorageStore} {action : V4MigrationAction}
    (h : action.Fits s) :
    (∃ t, applyV4Action s action = .ok t) ↔ action.PutsFreely s.orderRow := by
  obtain ⟨u, horder, -, heq⟩ := applyV4Action_eq h
  rw [heq]
  unfold PutsFreely
  cases action.newKey with
  | none => exact iff_of_true ⟨_, rfl⟩ nofun
  | some newKey =>
    simp only [Result.context_eq_ok, putCommitmentOrder_eq_ok, orderRow_deleteStored, horder,
      Option.some.injEq, forall_eq']
    constructor
    · rintro ⟨t, encodedKey, hencode, hfree, -⟩
      exact ⟨encodedKey, hencode, hfree⟩
    · rintro ⟨encodedKey, hencode, hfree⟩
      exact ⟨_, encodedKey, hencode, hfree, rfl⟩

/-- An action leaves its writes, and its new key in the row of its root. -/
theorem applyV4Action_eq_ok {s t : StorageStore} {action : V4MigrationAction}
    (h : action.Fits s) (hok : applyV4Action s action = .ok t) :
    t.orderRow = applyAll s.orderRow action.writes ∧
      ∀ r, t.getCommitment r = if action.baoRoot = r then
        (s.getCommitment r).map fun row => { row with otsOrderKey := action.newKey }
        else s.getCommitment r := by
  obtain ⟨u, horder, hrows, heq⟩ := applyV4Action_eq h
  rw [heq] at hok
  cases hnew : action.newKey with
  | none =>
    rw [hnew] at hok hrows
    cases hok
    have hputs : action.puts = none := by simp [puts, hnew]
    refine ⟨?_, fun r => by rw [getCommitment_deleteStored, hrows]⟩
    rw [orderRow_deleteStored, horder, writes, hputs]
    simp [deletes]
  | some newKey =>
    rw [hnew] at hok hrows
    rw [Result.context_eq_ok, putCommitmentOrder_eq_ok] at hok
    obtain ⟨encodedKey, hencode, -, rfl⟩ := hok
    have hputs : action.puts = some encodedKey := puts_eq_some.mpr ⟨newKey, hnew, hencode⟩
    refine ⟨?_, fun r => ?_⟩
    · funext key
      rw [StorageStore.orderRow_putOrderRow, orderRow_deleteStored, horder, writes, hputs,
        applyAll_append, Option.toList_some, List.map_singleton, applyAll_cons, applyAll_nil]
      by_cases hkey : key = encodedKey
      · simp [hkey]
      · simp [hkey, Ne.symm hkey, deletes]
    · rw [StorageStore.getCommitment_putOrderRow, getCommitment_deleteStored, hrows]

/-! ### The transaction -/

/-- The actions are for rows of different roots, with the old keys of the rows. -/
structure FitAll (s : StorageStore) (actions : List V4MigrationAction) : Prop where
  fits : ∀ action ∈ actions, action.Fits s
  nodup : (actions.map V4MigrationAction.baoRoot).Nodup

section

variable {s t : StorageStore} {action : V4MigrationAction} {actions : List V4MigrationAction}

theorem FitAll.perm (h : FitAll s actions) {order : List V4MigrationAction}
    (hperm : order.Perm actions) : FitAll s order :=
  ⟨fun a ha => h.fits a (hperm.mem_iff.mp ha), (hperm.map _).nodup_iff.mpr h.nodup⟩

/-- An action leaves the rows that the others are for. -/
theorem FitAll.step (h : FitAll s (action :: actions)) (hok : applyV4Action s action = .ok t) :
    FitAll t actions := by
  obtain ⟨-, hrows⟩ := applyV4Action_eq_ok (h.fits action (by simp)) hok
  have hnodup := h.nodup
  rw [List.map_cons, List.nodup_cons] at hnodup
  refine ⟨fun a ha => ?_, hnodup.2⟩
  obtain ⟨row, hrow, hold⟩ := h.fits a (List.mem_cons_of_mem _ ha)
  have hne : action.baoRoot ≠ a.baoRoot := fun heq =>
    hnodup.1 (by rw [heq]; exact List.mem_map_of_mem ha)
  exact ⟨row, by rw [hrows, if_neg hne, hrow], hold⟩

/-- The transaction succeeds exactly when each action puts freely behind the writes of those in
front of it. -/
theorem applyV4Actions_isOk_iff (h : FitAll s actions) :
    (∃ t, applyV4Actions s actions = .ok t) ↔
      ∀ front a back, actions = front ++ a :: back →
        a.PutsFreely (applyAll s.orderRow (front.flatMap V4MigrationAction.writes)) := by
  induction actions generalizing s with
  | nil => exact iff_of_true ⟨s, rfl⟩ fun front a back heq => by simp at heq
  | cons action actions ih =>
    have hfits := h.fits action (by simp)
    constructor
    · rintro ⟨t, hok⟩ front a back heq
      obtain ⟨u, hu, hrest⟩ := bind_eq_ok.mp (show applyV4Action s action >>= _ = _ from hok)
      cases front with
      | nil =>
        obtain ⟨rfl, -⟩ := List.cons.inj heq
        exact (applyV4Action_isOk_iff hfits).mp ⟨u, hu⟩
      | cons first front =>
        obtain ⟨rfl, hactions⟩ := List.cons.inj heq
        have hnext := (ih (h.step hu)).mp ⟨t, hrest⟩ front a back hactions
        rw [(applyV4Action_eq_ok hfits hu).1] at hnext
        rwa [List.flatMap_cons, applyAll_append]
    · intro hall
      obtain ⟨u, hu⟩ := (applyV4Action_isOk_iff hfits).mpr (hall [] action actions rfl)
      obtain ⟨t, ht⟩ := (ih (h.step hu)).mpr fun front a back heq => by
        have hnext := hall (action :: front) a back (by rw [heq]; rfl)
        rwa [List.flatMap_cons, applyAll_append, ← (applyV4Action_eq_ok hfits hu).1] at hnext
      exact ⟨t, bind_eq_ok.mpr ⟨u, hu, ht⟩⟩

/-- What a transaction leaves: its writes, and the new keys in the rows. -/
theorem applyV4Actions_eq_ok (h : FitAll s actions) (hok : applyV4Actions s actions = .ok t) :
    t.orderRow = applyAll s.orderRow (actions.flatMap V4MigrationAction.writes) ∧
      (∀ a ∈ actions, t.getCommitment a.baoRoot =
        (s.getCommitment a.baoRoot).map fun row => { row with otsOrderKey := a.newKey }) ∧
      ∀ r, r ∉ actions.map V4MigrationAction.baoRoot → t.getCommitment r = s.getCommitment r := by
  induction actions generalizing s with
  | nil =>
    cases hok
    exact ⟨rfl, by simp, fun _ _ => rfl⟩
  | cons action actions ih =>
    obtain ⟨u, hu, hrest⟩ := bind_eq_ok.mp (show applyV4Action s action >>= _ = _ from hok)
    obtain ⟨horderU, hrowsU⟩ := applyV4Action_eq_ok (h.fits action (by simp)) hu
    obtain ⟨horder, hrows, hkeep⟩ := ih (h.step hu) hrest
    have hnodup := h.nodup
    rw [List.map_cons, List.nodup_cons] at hnodup
    refine ⟨by rw [horder, horderU, List.flatMap_cons, applyAll_append], ?_, fun r hr => ?_⟩
    · intro a ha
      rcases List.mem_cons.mp ha with rfl | ha
      · rw [hkeep _ hnodup.1, hrowsU, if_pos rfl]
      · have hne : action.baoRoot ≠ a.baoRoot := fun heq =>
          hnodup.1 (by rw [heq]; exact List.mem_map_of_mem ha)
        rw [hrows a ha, hrowsU, if_neg hne]
    · rw [List.map_cons, List.mem_cons, not_or] at hr
      rw [hkeep r hr.2, hrowsU, if_neg (Ne.symm hr.1)]

end

/-! ### The actions of a store -/

section

variable [OtsCodec] (ots : String → Option Bytes)

/-- The key of the proof of a row, when the proof is readable. -/
def proofKey (row : CommitmentMeta) : Option Bytes :=
  row.otsProofPath.bind fun path => (ots path).bind fun proof =>
    (orderKeyFromProofBytes proof).toOption

/-- The order key of the row's proof cannot be encoded: a fork has more than 256 children. -/
def Panics (row : CommitmentMeta) : Prop :=
  ∃ path proof message, row.otsProofPath = some path ∧ ots path = some proof ∧
    orderKeyFromProofBytes proof = .error (.panic message)

/-- The action for a row whose proof does not panic. -/
def plannedAction (row : CommitmentMeta) : Option V4MigrationAction :=
  row.otsProofPath.map fun _ =>
    match proofKey ots row with
    | some newKey => .rekey row.baoRoot (row.otsOrderKey.getD []) newKey
    | none => .clearStale row.baoRoot (row.otsOrderKey.getD [])

variable {ots}

theorem plannedAction_eq_some {row : CommitmentMeta} {action : V4MigrationAction}
    (h : plannedAction ots row = some action) :
    row.otsProofPath.isSome ∧ action.baoRoot = row.baoRoot ∧
      action.oldKey = row.otsOrderKey.getD [] ∧ action.newKey = proofKey ots row := by
  unfold plannedAction at h
  obtain ⟨path, hpath, rfl⟩ := Option.map_eq_some_iff.mp h
  cases proofKey ots row <;> simp [hpath, baoRoot, oldKey, newKey]

theorem v4Action_eq {row : CommitmentMeta} (h : ¬Panics ots row) :
    v4Action ots row = .ok (plannedAction ots row) := by
  unfold v4Action plannedAction proofKey
  cases hpath : row.otsProofPath with
  | none => rfl
  | some path =>
    cases hots : ots path with
    | none => simp [hots]
    | some proof =>
      cases hkey : orderKeyFromProofBytes proof with
      | ok newKey => simp [hots, hkey, Except.toOption]
      | error fault =>
        cases fault with
        | err err => simp [hots, hkey, Except.toOption]
        | panic message => exact absurd ⟨path, proof, message, hpath, hots, hkey⟩ h

theorem v4Action_panics {row : CommitmentMeta} (h : Panics ots row) :
    ∃ message, v4Action ots row = .error (.panic message) := by
  obtain ⟨path, proof, message, hpath, hots, hkey⟩ := h
  refine ⟨message, ?_⟩
  unfold v4Action
  simp only [hpath, hots, hkey]

/-- The actions of the rows are known when no proof panics. -/
theorem v4Actions_eq_ok {rows : List CommitmentMeta} {actions : List V4MigrationAction} :
    v4Actions ots rows = .ok actions ↔
      (∀ row ∈ rows, ¬Panics ots row) ∧ actions = rows.filterMap (plannedAction ots) := by
  have hreduce : (rows.map (plannedAction ots)).reduceOption =
      rows.filterMap (plannedAction ots) := by
    show (rows.map (plannedAction ots)).filterMap id = _
    simp [List.filterMap_map]
  constructor
  · intro h
    obtain ⟨planned, hplanned, heq⟩ := bind_eq_ok.mp h
    have hnone : ∀ row ∈ rows, ¬Panics ots row := by
      intro row hrow hpanics
      obtain ⟨message, hmessage⟩ := v4Action_panics hpanics
      obtain ⟨action, haction⟩ := mapM_ok_mem hplanned hrow
      rw [hmessage] at haction
      cases haction
    rw [mapM_eq_ok fun row hrow => v4Action_eq (hnone row hrow)] at hplanned
    cases hplanned
    cases heq
    exact ⟨hnone, hreduce⟩
  · rintro ⟨hnone, rfl⟩
    refine bind_eq_ok.mpr ⟨_, mapM_eq_ok fun row hrow => v4Action_eq (hnone row hrow), ?_⟩
    rw [hreduce]

end

end Lord.Storage
