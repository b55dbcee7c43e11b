import Lord.Storage.OrderIndex
import Lord.Storage.OrderKeys

/-! The listing of timestamped commitments in the order of their keys. -/

namespace Lord.Commit

open Storage

structure CommitmentListEntry where
  baoRoot : String
  otsOrderKey : String
  carbonadoPath : String
  format : UInt8
  timestampedAt : Option UInt64
  deriving Repr, DecidableEq

/-- The list entry of an order row. -/
def listEntry (store : StorageStore) (ordered : Bytes × Bytes32) : Result CommitmentListEntry := do
  let row ← okOr (store.getCommitment ordered.2)
    s!"missing metadata for {Hex.encode ordered.2.val}"
  .ok { baoRoot := Hex.encode ordered.2.val, otsOrderKey := Hex.encode ordered.1,
        carbonadoPath := row.carbonadoPath, format := row.format,
        timestampedAt := row.timestampedAt }

/-- List commitments ordered by order key (timestamped commitments only). -/
def listCommitments (store : StorageStore) : Result (List CommitmentListEntry) := do
  let ordered ← store.listCommitmentsByOrder
  ordered.mapM (listEntry store)

/-- The listing shows every root with an order key exactly once, and no other. -/
def ListsAll (store : StorageStore) : Prop :=
  ∃ entries, listCommitments store = .ok entries ∧
    (entries.map CommitmentListEntry.baoRoot).Nodup ∧
    ∀ baoRoot : Bytes32, Hex.encode baoRoot.val ∈ entries.map CommitmentListEntry.baoRoot ↔
      (store.orderKeyOf baoRoot).isSome

/-- Tables that agree are listed without loss, orphan or repetition. -/
theorem listsAll_of_agree {s : StorageStore} (h : s.Agree) : ListsAll s := by
  obtain ⟨-, hagrees⟩ := StorageStore.agree_iff.mp h
  have howned : ∀ entry ∈ s.commitmentOrder.toList, ∃ row key, s.getCommitment entry.2 = some row ∧
      row.otsOrderKey = some key ∧ encodeOrderKeyForLmdb key = .ok entry.1 := by
    rintro ⟨encodedKey, baoRoot⟩ hmem
    exact h.owned encodedKey baoRoot (mem_commitmentOrder.mp hmem)
  have hordered : s.listCommitmentsByOrder = .ok (s.commitmentOrder.toList.map decodedRow) := by
    refine listCommitmentsByOrder_ok fun encodedKey baoRoot hindex => ?_
    obtain ⟨-, key, -, -, hencode⟩ := h.owned encodedKey baoRoot hindex
    exact ⟨key, hencode⟩
  let shown : Bytes × Bytes32 → CommitmentListEntry := fun ordered =>
    match s.getCommitment ordered.2 with
    | some row => ⟨Hex.encode ordered.2.val, Hex.encode ordered.1, row.carbonadoPath, row.format,
        row.timestampedAt⟩
    | none => ⟨"", "", "", 0, none⟩
  have hlist : listCommitments s =
      .ok ((s.commitmentOrder.toList.map decodedRow).map shown) := by
    refine bind_eq_ok.mpr ⟨_, hordered, mapM_eq_ok ?_⟩
    rintro ordered hmem
    obtain ⟨entry, hentry, rfl⟩ := List.mem_map.mp hmem
    obtain ⟨row, key, hrow, -, -⟩ := howned entry hentry
    refine bind_eq_ok.mpr ⟨row, okOr_eq_ok.mpr hrow, ?_⟩
    simp only [shown, decodedRow, hrow]
  have hroots : ((s.commitmentOrder.toList.map decodedRow).map shown).map
      CommitmentListEntry.baoRoot =
        s.commitmentOrder.toList.map fun entry => Hex.encode entry.2.val := by
    rw [List.map_map, List.map_map]
    refine List.map_congr_left fun entry hentry => ?_
    obtain ⟨row, key, hrow, -, -⟩ := howned entry hentry
    simp only [Function.comp_apply, shown, decodedRow, hrow]
  refine ⟨_, hlist, ?_, fun baoRoot => ?_⟩
  · rw [hroots]
    refine List.Nodup.map_on ?_ ?_
    · rintro ⟨a, r⟩ ha ⟨b, r'⟩ hb heq
      obtain rfl : r = r' := Subtype.ext (Hex.encode_injective heq)
      have hkey := (hagrees a r).mp (mem_commitmentOrder.mp ha)
      rw [(hagrees b r).mp (mem_commitmentOrder.mp hb)] at hkey
      rw [Option.some.inj hkey]
    · exact (s.commitmentOrder.distinct_keys_toList).imp fun hne heq =>
        hne (by rw [heq]; exact Std.ReflCmp.compare_self)
  · rw [hroots, List.mem_map]
    constructor
    · rintro ⟨⟨encodedKey, owner⟩, hmem, heq⟩
      obtain rfl : owner = baoRoot := Subtype.ext (Hex.encode_injective heq)
      obtain ⟨row, key, hrow, hkey, -⟩ := howned _ hmem
      simp [StorageStore.orderKeyOf, hrow, hkey]
    · intro hsome
      obtain ⟨key, hkey⟩ := Option.isSome_iff_exists.mp hsome
      obtain ⟨row, hrow, hkey⟩ := StorageStore.orderKeyOf_eq_some.mp hkey
      obtain ⟨encodedKey, -, hindex⟩ := h.indexed baoRoot row key hrow hkey
      exact ⟨(encodedKey, baoRoot), mem_commitmentOrder.mpr hindex, rfl⟩

end Lord.Commit
