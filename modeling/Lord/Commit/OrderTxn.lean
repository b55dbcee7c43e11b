import Lord.Storage.OrderIndex

/-! The transactions that move a commitment to a new order key and back.  On tables that agree, a
move succeeds exactly when the new key has an encoding that no other root owns, and a rollback
undoes it; a rollback of a move that was rejected evicts the owner of the key. -/

namespace Lord.Commit

open Storage SecondaryIndex

/-- Delete the order key of a row that has one. -/
def dropOrderKey (store : StorageStore) (orderKey : Option Bytes) : Result StorageStore :=
  match orderKey with
  | some key => store.deleteCommitmentOrder key
  | none => .ok store

/-- Put the order key of a row that has one. -/
def restoreOrderKey (store : StorageStore) (orderKey : Option Bytes) (baoRoot : Bytes32) :
    Result StorageStore :=
  match orderKey with
  | some key => store.putCommitmentOrder key baoRoot
  | none => .ok store

/-- The transaction of `commit_upgrade_order_key`; `timestamp_commitment` makes the same writes. -/
def commitUpgradeOrderKey (store : StorageStore) (baoRoot : Bytes32)
    (previousOrderKey : Option Bytes) (updated : CommitmentMeta) (newOrderBytes : Bytes) :
    Result StorageStore := do
  let store ← dropOrderKey store previousOrderKey
  (store.putCommitment updated).putCommitmentOrder newOrderBytes baoRoot

def rollbackTimestampLmdb (store : StorageStore) (previousMeta : CommitmentMeta)
    (previousOrderKey : Option Bytes) (updated : CommitmentMeta) : Result StorageStore := do
  let store ← dropOrderKey (store.putCommitment previousMeta) updated.otsOrderKey
  restoreOrderKey store previousOrderKey previousMeta.baoRoot

/-! ### Lookups after the steps of a transaction -/

/-- What an optional order key encodes to. -/
def encodedKey (orderKey : Option Bytes) : Option Bytes :=
  orderKey.bind fun key => (encodeOrderKeyForLmdb key).toOption

/-- The encoded order key is free, or owned by this root. -/
def Free (store : StorageStore) (encoded : Bytes) (baoRoot : Bytes32) : Prop :=
  ∀ owner, store.orderRow encoded = some owner → owner = baoRoot

theorem deleteCommitmentOrder_ok {s t : StorageStore} {key : Bytes}
    (h : s.deleteCommitmentOrder key = .ok t) :
    ∃ encoded, encodeOrderKeyForLmdb key = .ok encoded ∧ t = s.deleteOrderRow encoded := by
  unfold StorageStore.deleteCommitmentOrder at h
  split at h
  · cases h
  · rename_i encoded hencode
    cases h
    exact ⟨encoded, hencode, rfl⟩

theorem putCommitmentOrder_eq_ok {s t : StorageStore} {key : Bytes} {baoRoot : Bytes32} :
    s.putCommitmentOrder key baoRoot = .ok t ↔ ∃ encoded,
      encodeOrderKeyForLmdb key = .ok encoded ∧ Free s encoded baoRoot ∧
        t = s.putOrderRow encoded baoRoot := by
  unfold StorageStore.putCommitmentOrder Free
  cases hencode : encodeOrderKeyForLmdb key with
  | error err => simp
  | ok encoded =>
    cases howner : s.orderRow encoded with
    | none => simp [howner, eq_comm]
    | some owner =>
      by_cases hsame : owner = baoRoot
      · simp [howner, hsame, eq_comm]
      · simp only [howner, ne_eq, hsame, not_false_eq_true, if_true, reduceCtorEq, false_iff]
        rintro ⟨encoded', hencode', hfree, -⟩
        cases hencode'
        exact hsame (hfree owner howner)

@[simp] theorem encodedKey_some {key encoded : Bytes}
    (h : encodeOrderKeyForLmdb key = .ok encoded) : encodedKey (some key) = some encoded := by
  simp [encodedKey, h, Except.toOption]

theorem dropOrderKey_some {key encoded : Bytes} (h : encodeOrderKeyForLmdb key = .ok encoded)
    (s : StorageStore) : dropOrderKey s (some key) = .ok (s.deleteOrderRow encoded) := by
  simp [dropOrderKey, StorageStore.deleteCommitmentOrder, h]

theorem dropOrderKey_ok {s t : StorageStore} {orderKey : Option Bytes}
    (h : dropOrderKey s orderKey = .ok t) :
    t.orderRow = forget s.orderRow (encodedKey orderKey) ∧
      ∀ r, t.getCommitment r = s.getCommitment r := by
  cases orderKey with
  | none =>
    cases h
    exact ⟨rfl, fun _ => rfl⟩
  | some key =>
    obtain ⟨encoded, hencode, rfl⟩ := deleteCommitmentOrder_ok h
    refine ⟨funext fun k => ?_, fun _ => rfl⟩
    rw [StorageStore.orderRow_deleteOrderRow, encodedKey_some hencode, forget,
      Function.update_apply]
    simp only [eq_comm]

/-- A recorded order key can be dropped from tables that agree. -/
theorem dropOrderKey_of_keysEncode {s : StorageStore} (h : s.KeysEncode) (baoRoot : Bytes32) :
    ∃ t, dropOrderKey s (s.orderKeyOf baoRoot) = .ok t := by
  cases hkey : s.orderKeyOf baoRoot with
  | none => exact ⟨s, rfl⟩
  | some key =>
    obtain ⟨encoded, hencode⟩ := h baoRoot key hkey
    exact ⟨_, dropOrderKey_some hencode s⟩

section

variable {s t : StorageStore} {baoRoot : Bytes32} {row updated : CommitmentMeta} {key : Bytes}

/-- What a committed transaction has written. -/
structure Committed (s t : StorageStore) (baoRoot : Bytes32) (previousOrderKey : Option Bytes)
    (updated : CommitmentMeta) (encoded : Bytes) : Prop where
  getCommitment_eq : ∀ r, t.getCommitment r = if updated.baoRoot = r then some updated
    else s.getCommitment r
  orderRow_eq : t.orderRow = Function.update (forget s.orderRow (encodedKey previousOrderKey))
    encoded (some baoRoot)

theorem commitUpgradeOrderKey_ok {previousOrderKey : Option Bytes}
    (h : commitUpgradeOrderKey s baoRoot previousOrderKey updated key = .ok t) :
    ∃ encoded, encodeOrderKeyForLmdb key = .ok encoded ∧
      Committed s t baoRoot previousOrderKey updated encoded := by
  obtain ⟨dropped, hdrop, hput⟩ := bind_eq_ok.mp h
  obtain ⟨horder, hget⟩ := dropOrderKey_ok hdrop
  obtain ⟨encoded, hencode, -, rfl⟩ := putCommitmentOrder_eq_ok.mp hput
  refine ⟨encoded, hencode, fun r => ?_, funext fun k => ?_⟩
  · rw [StorageStore.getCommitment_putOrderRow, StorageStore.getCommitment_putCommitment, hget]
  · rw [StorageStore.orderRow_putOrderRow, StorageStore.orderRow_putCommitment, horder,
      Function.update_apply]
    simp only [eq_comm]

/-- On tables that agree the transaction commits exactly when the new key has an encoding that is
free or owned by the root. -/
theorem commitUpgradeOrderKey_iff (baoRoot : Bytes32) (updated : CommitmentMeta) (key : Bytes)
    (h : s.Agree) :
    (∃ t, commitUpgradeOrderKey s baoRoot (s.orderKeyOf baoRoot) updated key = .ok t) ↔
      ∃ encoded, encodeOrderKeyForLmdb key = .ok encoded ∧ Free s encoded baoRoot := by
  obtain ⟨hkeys, hagrees⟩ := StorageStore.agree_iff.mp h
  obtain ⟨dropped, hdrop⟩ := dropOrderKey_of_keysEncode hkeys baoRoot
  obtain ⟨horder, -⟩ := dropOrderKey_ok hdrop
  -- Only a row of this root leaves the index before the check.
  have hfree : ∀ encoded, Free dropped encoded baoRoot ↔ Free s encoded baoRoot := by
    intro encoded
    unfold Free
    rw [horder]
    refine forall_congr' fun owner => ?_
    rw [forget_eq_some]
    constructor
    · intro hforget howner
      by_cases hown : encodedKey (s.orderKeyOf baoRoot) = some encoded
      · have hindex := (hagrees encoded baoRoot).mpr hown
        rw [howner] at hindex
        exact Option.some.inj hindex
      · exact hforget ⟨hown, howner⟩
    · rintro hs ⟨-, howner⟩
      exact hs howner
  constructor
  · rintro ⟨t, hcommit⟩
    obtain ⟨dropped', hdrop', hput⟩ := bind_eq_ok.mp hcommit
    rw [hdrop] at hdrop'
    cases hdrop'
    obtain ⟨encoded, hencode, hown, -⟩ := putCommitmentOrder_eq_ok.mp hput
    exact ⟨encoded, hencode, (hfree encoded).mp hown⟩
  · rintro ⟨encoded, hencode, hown⟩
    exact ⟨_, bind_eq_ok.mpr ⟨dropped, hdrop,
      putCommitmentOrder_eq_ok.mpr ⟨encoded, hencode, (hfree encoded).mpr hown, rfl⟩⟩⟩

/-- A committed transaction keeps the agreement. -/
theorem Committed.agree {encoded : Bytes} (h : s.Agree) (hroot : updated.baoRoot = baoRoot)
    (hkey : updated.otsOrderKey = some key) (hencode : encodeOrderKeyForLmdb key = .ok encoded)
    (hfree : Free s encoded baoRoot)
    (hcommit : Committed s t baoRoot (s.orderKeyOf baoRoot) updated encoded) : t.Agree := by
  obtain ⟨hkeys, hagrees⟩ := StorageStore.agree_iff.mp h
  have hkeyOf : ∀ r, t.orderKeyOf r = if baoRoot = r then some key else s.orderKeyOf r := by
    intro r
    unfold StorageStore.orderKeyOf
    rw [hcommit.getCommitment_eq, hroot]
    split
    · exact hkey
    · rfl
  have hencoded : t.encodedKeyOf = Function.update s.encodedKeyOf baoRoot (some encoded) := by
    funext r
    by_cases hr : r = baoRoot
    · subst hr
      simp [StorageStore.encodedKeyOf, hkeyOf, hencode, Except.toOption]
    · simp [StorageStore.encodedKeyOf, hkeyOf, Ne.symm hr, Function.update_of_ne hr]
  refine StorageStore.agree_iff.mpr ⟨fun r key' hkey' => ?_, ?_⟩
  · rw [hkeyOf] at hkey'
    split at hkey'
    · cases hkey'
      exact ⟨encoded, hencode⟩
    · exact hkeys r key' hkey'
  · rw [hencoded, hcommit.orderRow_eq]
    exact hagrees.rekey hfree

theorem commitUpgradeOrderKey_agree (h : s.Agree) (hrow : s.getCommitment baoRoot = some row)
    (hroot : updated.baoRoot = baoRoot) (hkey : updated.otsOrderKey = some key)
    (hcommit : commitUpgradeOrderKey s baoRoot row.otsOrderKey updated key = .ok t) : t.Agree := by
  have hkeyOf : s.orderKeyOf baoRoot = row.otsOrderKey := by simp [StorageStore.orderKeyOf, hrow]
  rw [← hkeyOf] at hcommit
  obtain ⟨encoded, hencode, hcommitted⟩ := commitUpgradeOrderKey_ok hcommit
  obtain ⟨encoded', hencode', hfree⟩ := (commitUpgradeOrderKey_iff _ _ _ h).mp ⟨t, hcommit⟩
  rw [hencode] at hencode'
  cases hencode'
  exact hcommitted.agree h hroot hkey hencode hfree

/-! ### Rollbacks -/

theorem putCommitment_eq_self (hrow : s.getCommitment baoRoot = some row) :
    s.putCommitment row = s := by
  refine StorageStore.ext_lookup (fun r => ?_) fun _ => rfl
  rw [StorageStore.getCommitment_putCommitment]
  split
  · rename_i hr
    rw [← hr, StorageStore.baoRoot_of_getCommitment hrow, hrow]
  · rfl

/-- A rollback of a committed transaction goes through: it restores the rows of `COMMITMENT_META`,
drops the new order key and puts the old one back. -/
theorem rollback_ok (hrow : s.getCommitment baoRoot = some row)
    (hroot : updated.baoRoot = baoRoot) (hkey : updated.otsOrderKey = some key)
    (hcommit : commitUpgradeOrderKey s baoRoot row.otsOrderKey updated key = .ok t) :
    ∃ u encoded, rollbackTimestampLmdb t row row.otsOrderKey updated = .ok u ∧
      encodeOrderKeyForLmdb key = .ok encoded ∧ (∀ r, u.getCommitment r = s.getCommitment r) ∧
      u.orderRow = remember (forget (forget s.orderRow (encodedKey row.otsOrderKey)) (some encoded))
        (encodedKey row.otsOrderKey) baoRoot := by
  obtain ⟨encoded, hencode, hcommitted⟩ := commitUpgradeOrderKey_ok hcommit
  obtain ⟨dropped, hdropped, -⟩ := bind_eq_ok.mp hcommit
  have hrowRoot := StorageStore.baoRoot_of_getCommitment hrow
  let back := (t.putCommitment row).deleteOrderRow encoded
  have hback : dropOrderKey (t.putCommitment row) updated.otsOrderKey = .ok back := by
    rw [hkey]
    exact dropOrderKey_some hencode _
  have hbackRow : back.orderRow =
      forget (forget s.orderRow (encodedKey row.otsOrderKey)) (some encoded) := by
    obtain ⟨horder, -⟩ := dropOrderKey_ok hback
    have ht : (t.putCommitment row).orderRow = t.orderRow := rfl
    rw [horder, hkey, encodedKey_some hencode, ht, hcommitted.orderRow_eq]
    simp [forget]
  have hbackGet : ∀ r, back.getCommitment r = s.getCommitment r := by
    intro r
    rw [StorageStore.getCommitment_deleteOrderRow, StorageStore.getCommitment_putCommitment,
      hrowRoot]
    split
    · rename_i hr
      rw [← hr, hrow]
    · rename_i hr
      rw [hcommitted.getCommitment_eq, hroot, if_neg hr]
  unfold rollbackTimestampLmdb
  cases hold : row.otsOrderKey with
  | none =>
    refine ⟨back, encoded, bind_eq_ok.mpr ⟨back, hback, rfl⟩, hencode, hbackGet, ?_⟩
    rw [hbackRow, hold]
    rfl
  | some old =>
    rw [hold] at hdropped hbackRow
    obtain ⟨oldEncoded, holdEncode, -⟩ := deleteCommitmentOrder_ok hdropped
    rw [encodedKey_some holdEncode] at hbackRow ⊢
    have hfree : Free back oldEncoded row.baoRoot := by
      intro owner howner
      rw [hbackRow, forget_eq_some, forget_eq_some] at howner
      exact absurd rfl howner.2.1
    refine ⟨back.putOrderRow oldEncoded row.baoRoot, encoded, bind_eq_ok.mpr ⟨back, hback,
      putCommitmentOrder_eq_ok.mpr ⟨oldEncoded, holdEncode, hfree, rfl⟩⟩, hencode, hbackGet, ?_⟩
    funext k
    rw [StorageStore.orderRow_putOrderRow, hbackRow, hrowRoot, remember, Function.update_apply]
    simp only [eq_comm]

/-- On tables that agree, a rollback undoes a committed transaction. -/
theorem rollback_committed (h : s.Agree) (hrow : s.getCommitment baoRoot = some row)
    (hroot : updated.baoRoot = baoRoot) (hkey : updated.otsOrderKey = some key)
    (hcommit : commitUpgradeOrderKey s baoRoot row.otsOrderKey updated key = .ok t) :
    rollbackTimestampLmdb t row row.otsOrderKey updated = .ok s := by
  obtain ⟨-, hagrees⟩ := StorageStore.agree_iff.mp h
  have hkeyOf : s.orderKeyOf baoRoot = row.otsOrderKey := by simp [StorageStore.orderKeyOf, hrow]
  have hencodedKeyOf : s.encodedKeyOf baoRoot = encodedKey row.otsOrderKey := by
    rw [← hkeyOf]
    rfl
  obtain ⟨u, encoded, hrollback, hencode, hget, horder⟩ := rollback_ok hrow hroot hkey hcommit
  obtain ⟨encoded', hencode', hfree⟩ := (commitUpgradeOrderKey_iff _ _ _ h).mp ⟨t, hkeyOf ▸ hcommit⟩
  rw [hencode] at hencode'
  cases hencode'
  have hundo := hagrees.remember_forget hfree
  rw [hencodedKeyOf] at hundo
  rw [hrollback]
  congr 1
  exact StorageStore.ext_lookup hget fun k => by rw [horder, hundo]

/-- Whatever a rollback of a rejected transaction does, it leaves the rows of `COMMITMENT_META`. -/
theorem rollback_rejected_getCommitment (hrow : s.getCommitment baoRoot = some row)
    (hrollback : rollbackTimestampLmdb s row row.otsOrderKey updated = .ok t) (r : Bytes32) :
    t.getCommitment r = s.getCommitment r := by
  unfold rollbackTimestampLmdb at hrollback
  rw [putCommitment_eq_self hrow] at hrollback
  obtain ⟨dropped, hdrop, hrestore⟩ := bind_eq_ok.mp hrollback
  obtain ⟨-, hget⟩ := dropOrderKey_ok hdrop
  cases hold : row.otsOrderKey with
  | none =>
    rw [hold] at hrestore
    cases hrestore
    exact hget r
  | some old =>
    rw [hold] at hrestore
    obtain ⟨encoded, -, -, rfl⟩ := putCommitmentOrder_eq_ok.mp hrestore
    exact hget r

/-- On tables that agree, a rollback of a transaction that was rejected for the owner of its key
evicts that owner. -/
theorem rollback_rejected (h : s.Agree) (hrow : s.getCommitment baoRoot = some row)
    (hkey : updated.otsOrderKey = some key) {encoded : Bytes} {owner : Bytes32}
    (hencode : encodeOrderKeyForLmdb key = .ok encoded) (howner : s.orderRow encoded = some owner)
    (hother : owner ≠ baoRoot) :
    rollbackTimestampLmdb s row row.otsOrderKey updated = .ok (s.deleteOrderRow encoded) := by
  obtain ⟨hkeys, hagrees⟩ := StorageStore.agree_iff.mp h
  have hrowRoot := StorageStore.baoRoot_of_getCommitment hrow
  have hkeyOf : s.orderKeyOf baoRoot = row.otsOrderKey := by simp [StorageStore.orderKeyOf, hrow]
  have hdrop : dropOrderKey s updated.otsOrderKey = .ok (s.deleteOrderRow encoded) := by
    rw [hkey]
    exact dropOrderKey_some hencode s
  unfold rollbackTimestampLmdb
  rw [putCommitment_eq_self hrow]
  refine bind_eq_ok.mpr ⟨_, hdrop, ?_⟩
  cases hold : row.otsOrderKey with
  | none => rfl
  | some old =>
    obtain ⟨oldEncoded, holdEncode⟩ := hkeys baoRoot old (hkeyOf.trans hold)
    have hindex : s.orderRow oldEncoded = some baoRoot := (hagrees oldEncoded baoRoot).mpr
      (StorageStore.encodedKeyOf_eq_some.mpr ⟨old, hkeyOf.trans hold, holdEncode⟩)
    have hne : encoded ≠ oldEncoded := by
      rintro rfl
      rw [howner] at hindex
      exact hother (Option.some.inj hindex)
    have hfound : (s.deleteOrderRow encoded).orderRow oldEncoded = some row.baoRoot := by
      rw [StorageStore.orderRow_deleteOrderRow, if_neg hne, hindex, hrowRoot]
    refine (putCommitmentOrder_eq_ok (t := s.deleteOrderRow encoded)).mpr ⟨oldEncoded, holdEncode,
      fun owner' howner' => ?_, ?_⟩
    · rw [hfound] at howner'
      exact (Option.some.inj howner').symm
    · refine StorageStore.ext_lookup (fun _ => rfl) fun k => ?_
      rw [StorageStore.orderRow_putOrderRow]
      split
      · rename_i hk
        rw [← hk, hfound]
      · rfl

/-- A rollback of a transaction whose key has no encoding fails. -/
theorem rollback_unencodable (hkey : updated.otsOrderKey = some key) {err : Error}
    (hencode : encodeOrderKeyForLmdb key = .error err) (previousOrderKey : Option Bytes) :
    rollbackTimestampLmdb s row previousOrderKey updated = .error err := by
  simp [rollbackTimestampLmdb, hkey, dropOrderKey, StorageStore.deleteCommitmentOrder, hencode,
    bind, Except.bind]

/-- A key that leaves `COMMITMENT_ORDER` while its owner keeps it breaks the agreement. -/
theorem not_agree_deleteOrderRow (h : s.Agree) {encoded : Bytes} {owner : Bytes32}
    (howner : s.orderRow encoded = some owner) : ¬(s.deleteOrderRow encoded).Agree := by
  obtain ⟨-, hagrees⟩ := StorageStore.agree_iff.mp h
  intro hbroken
  obtain ⟨-, hbroken⟩ := StorageStore.agree_iff.mp hbroken
  have horder : (s.deleteOrderRow encoded).orderRow = Function.update s.orderRow encoded none := by
    funext k
    rw [StorageStore.orderRow_deleteOrderRow, Function.update_apply]
    simp only [eq_comm]
  have hkeyOf : (s.deleteOrderRow encoded).encodedKeyOf = s.encodedKeyOf := rfl
  rw [horder, hkeyOf, hagrees.evict_iff, howner] at hbroken
  cases hbroken

end

end Lord.Commit
