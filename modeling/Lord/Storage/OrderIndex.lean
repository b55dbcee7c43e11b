import Lord.Lib.SecondaryIndex
import Lord.Storage.Store

/-! `COMMITMENT_ORDER` as the secondary index of `COMMITMENT_META` by order key. -/

namespace Lord.Storage.StorageStore

open SecondaryIndex

/-- The two tables agree: the rows of `COMMITMENT_ORDER` are the encoded order keys of the rows of
`COMMITMENT_META`, each with its root. -/
structure Agree (s : StorageStore) : Prop where
  indexed : ∀ baoRoot row key, s.getCommitment baoRoot = some row → row.otsOrderKey = some key →
    ∃ encodedKey, encodeOrderKeyForLmdb key = .ok encodedKey ∧
      s.orderRow encodedKey = some baoRoot
  owned : ∀ encodedKey baoRoot, s.orderRow encodedKey = some baoRoot →
    ∃ row key, s.getCommitment baoRoot = some row ∧ row.otsOrderKey = some key ∧
      encodeOrderKeyForLmdb key = .ok encodedKey

/-- The order key recorded for a root. -/
def orderKeyOf (s : StorageStore) (baoRoot : Bytes32) : Option Bytes :=
  (s.getCommitment baoRoot).bind CommitmentMeta.otsOrderKey

/-- The key that the row of a root has in `COMMITMENT_ORDER`. -/
def encodedKeyOf (s : StorageStore) (baoRoot : Bytes32) : Option Bytes :=
  (s.orderKeyOf baoRoot).bind fun key => (encodeOrderKeyForLmdb key).toOption

/-- Every recorded order key has an encoding. -/
def KeysEncode (s : StorageStore) : Prop :=
  ∀ baoRoot key, s.orderKeyOf baoRoot = some key →
    ∃ encodedKey, encodeOrderKeyForLmdb key = .ok encodedKey

theorem orderKeyOf_eq_some {s : StorageStore} {baoRoot : Bytes32} {key : Bytes} :
    s.orderKeyOf baoRoot = some key ↔
      ∃ row, s.getCommitment baoRoot = some row ∧ row.otsOrderKey = some key := by
  simp [orderKeyOf, Option.bind_eq_some_iff]

theorem encodedKeyOf_eq_some {s : StorageStore} {baoRoot : Bytes32} {encodedKey : Bytes} :
    s.encodedKeyOf baoRoot = some encodedKey ↔
      ∃ key, s.orderKeyOf baoRoot = some key ∧ encodeOrderKeyForLmdb key = .ok encodedKey := by
  have htoOption : ∀ r : Result Bytes, r.toOption = some encodedKey ↔ r = .ok encodedKey := by
    intro r
    cases r <;> simp [Except.toOption]
  simp [encodedKeyOf, Option.bind_eq_some_iff, htoOption]

/-- The agreement of the tables is that of an index with the keys of its rows. -/
theorem agree_iff {s : StorageStore} :
    s.Agree ↔ s.KeysEncode ∧ Agrees s.encodedKeyOf s.orderRow := by
  constructor
  · intro h
    refine ⟨fun baoRoot key hkey => ?_, fun encodedKey baoRoot => ⟨fun hindex => ?_, fun hkey => ?_⟩⟩
    · obtain ⟨row, hrow, hkey⟩ := orderKeyOf_eq_some.mp hkey
      obtain ⟨encodedKey, hencode, -⟩ := h.indexed baoRoot row key hrow hkey
      exact ⟨encodedKey, hencode⟩
    · obtain ⟨row, key, hrow, hkey, hencode⟩ := h.owned encodedKey baoRoot hindex
      exact encodedKeyOf_eq_some.mpr ⟨key, orderKeyOf_eq_some.mpr ⟨row, hrow, hkey⟩, hencode⟩
    · obtain ⟨key, hkey, hencode⟩ := encodedKeyOf_eq_some.mp hkey
      obtain ⟨row, hrow, hkey⟩ := orderKeyOf_eq_some.mp hkey
      obtain ⟨encodedKey', hencode', hindex⟩ := h.indexed baoRoot row key hrow hkey
      rw [hencode] at hencode'
      cases hencode'
      exact hindex
  · rintro ⟨hkeys, hagrees⟩
    refine ⟨fun baoRoot row key hrow hkey => ?_, fun encodedKey baoRoot hindex => ?_⟩
    · have hkeyOf := orderKeyOf_eq_some.mpr ⟨row, hrow, hkey⟩
      obtain ⟨encodedKey, hencode⟩ := hkeys baoRoot key hkeyOf
      exact ⟨encodedKey, hencode,
        (hagrees encodedKey baoRoot).mpr (encodedKeyOf_eq_some.mpr ⟨key, hkeyOf, hencode⟩)⟩
    · obtain ⟨key, hkeyOf, hencode⟩ :=
        encodedKeyOf_eq_some.mp ((hagrees encodedKey baoRoot).mp hindex)
      obtain ⟨row, hrow, hkey⟩ := orderKeyOf_eq_some.mp hkeyOf
      exact ⟨row, key, hrow, hkey, hencode⟩

theorem Agree.empty : empty.Agree := by
  refine agree_iff.mpr ⟨?_, ?_⟩
  · intro baoRoot key h
    simp [orderKeyOf, getCommitment, StorageStore.empty] at h
  · intro encodedKey baoRoot
    simp [orderRow, encodedKeyOf, orderKeyOf, getCommitment, StorageStore.empty]

/-! ### Rows that are replaced by rows without an OTS state -/

/-- From `s` to `t` the rows of some roots are replaced by rows without an OTS state; every other
row keeps its OTS state, and `COMMITMENT_ORDER` stays. -/
structure Resets (s t : StorageStore) (roots : Bytes32 → Prop) : Prop where
  orderRow_eq : ∀ encodedKey, t.orderRow encodedKey = s.orderRow encodedKey
  reset : ∀ baoRoot, roots baoRoot →
    (t.getCommitment baoRoot).map CommitmentMeta.otsState = some (none, none, none)
  keep : ∀ baoRoot, ¬roots baoRoot →
    (t.getCommitment baoRoot).map CommitmentMeta.otsState =
      (s.getCommitment baoRoot).map CommitmentMeta.otsState

theorem Resets.refl (s : StorageStore) : Resets s s fun _ => False :=
  ⟨fun _ => rfl, fun _ h => h.elim, fun _ _ => rfl⟩

theorem Resets.trans {s t u : StorageStore} {first second : Bytes32 → Prop}
    (hst : Resets s t first) (htu : Resets t u second) :
    Resets s u fun baoRoot => first baoRoot ∨ second baoRoot := by
  refine ⟨fun key => (htu.orderRow_eq key).trans (hst.orderRow_eq key), fun r hr => ?_,
    fun r hr => ?_⟩
  · by_cases hsecond : second r
    · exact htu.reset r hsecond
    · rw [htu.keep r hsecond]
      exact hst.reset r (hr.resolve_right hsecond)
  · rw [htu.keep r fun h => hr (.inr h), hst.keep r fun h => hr (.inl h)]

theorem Resets.congr {s t : StorageStore} {roots roots' : Bytes32 → Prop} (h : Resets s t roots)
    (hiff : ∀ baoRoot, roots baoRoot ↔ roots' baoRoot) : Resets s t roots' := by
  obtain rfl : roots = roots' := funext fun r => propext (hiff r)
  exact h

/-- A new row resets the row of its root. -/
theorem Resets.putCommitment (s : StorageStore) {row : CommitmentMeta}
    (hrow : row.otsState = (none, none, none)) :
    Resets s (s.putCommitment row) fun baoRoot => row.baoRoot = baoRoot := by
  refine ⟨fun _ => rfl, ?_, fun r hr => ?_⟩
  · rintro _ rfl
    simp [hrow]
  · rw [getCommitment_putCommitment, if_neg hr]

theorem orderKeyOf_eq_otsState (s : StorageStore) (baoRoot : Bytes32) :
    s.orderKeyOf baoRoot =
      ((s.getCommitment baoRoot).map CommitmentMeta.otsState).bind fun state => state.2.1 := by
  unfold orderKeyOf
  cases s.getCommitment baoRoot <;> rfl

/-- Rows that are reset leave orphans in the index exactly when one of them had an order key. -/
theorem Resets.agree_iff {s t : StorageStore} {roots : Bytes32 → Prop} (h : Resets s t roots)
    (hagree : s.Agree) :
    t.Agree ↔ ∀ baoRoot, roots baoRoot → s.orderKeyOf baoRoot = none := by
  classical
  obtain ⟨hkeys, hagrees⟩ := StorageStore.agree_iff.mp hagree
  have hkeyOf : ∀ r, t.orderKeyOf r = if roots r then none else s.orderKeyOf r := by
    intro r
    by_cases hr : roots r
    · simp [hr, orderKeyOf_eq_otsState t, h.reset r hr]
    · simp [hr, orderKeyOf_eq_otsState, h.keep r hr]
  have hencoded : t.encodedKeyOf = fun r => if roots r then none else s.encodedKeyOf r := by
    funext r
    by_cases hr : roots r <;> simp [encodedKeyOf, hkeyOf, hr]
  have horder : t.orderRow = s.orderRow := funext h.orderRow_eq
  have hkeys' : t.KeysEncode := by
    intro r key hkey
    rw [hkeyOf] at hkey
    split at hkey
    · cases hkey
    · exact hkeys r key hkey
  rw [StorageStore.agree_iff, and_iff_right hkeys', hencoded, horder, hagrees.clear_iff roots]
  refine forall_congr' fun r => imp_congr_right fun _ => ?_
  constructor
  · intro hnone
    cases hkey : s.orderKeyOf r with
    | none => rfl
    | some key =>
      obtain ⟨encodedKey, hencode⟩ := hkeys r key hkey
      rw [encodedKeyOf_eq_some.mpr ⟨key, hkey, hencode⟩] at hnone
      cases hnone
  · intro hnone
    simp [encodedKeyOf, hnone]

end Lord.Storage.StorageStore
