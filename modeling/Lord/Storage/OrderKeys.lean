import Lord.Lib.Lexicographic
import Lord.Storage.Store

/-! The byte order of the stored order keys against the order of the logical ones. -/

namespace Lord.Storage

/-- Compare two OTS order keys lexicographically. -/
def compareOrderKeys (a b : Bytes) : Ordering := compare a b

/-- The sentinel against a path that starts with eight forks at child 254. -/
def SentinelClash (a b : Bytes) : Prop :=
  a = noAttestationSentinel ∧ List.replicate 8 254 <+: b ∨
    b = noAttestationSentinel ∧ List.replicate 8 254 <+: a

/-- Two stored keys read back, differ as the logical ones do and are in the same order. -/
def OrderEmbedded (a b encodedA encodedB : Bytes) : Prop :=
  decodeOrderKeyFromLmdb encodedA = .ok a ∧ decodeOrderKeyFromLmdb encodedB = .ok b ∧
    (encodedA = encodedB → a = b) ∧
    (compare encodedA encodedB = .lt ↔ compareOrderKeys a b = .lt)

theorem toNat_add_one {a : UInt8} (h : a ≠ 255) : (a + 1).toNat = a.toNat + 1 := by
  have hlt := a.toNat_lt
  have hne : a.toNat ≠ 255 := fun heq => h (UInt8.toNat_inj.mp heq)
  rw [UInt8.toNat_add]
  show (a.toNat + 1) % 2 ^ 8 = a.toNat + 1
  omega

theorem compare_add_one {a b : UInt8} (ha : a ≠ 255) (hb : b ≠ 255) :
    compare (a + 1) (b + 1) = compare a b := by
  have hlt : a + 1 < b + 1 ↔ a < b := by
    rw [UInt8.lt_iff_toNat_lt, UInt8.lt_iff_toNat_lt, toNat_add_one ha, toNat_add_one hb]
    omega
  show compareOfLessAndEq (a + 1) (b + 1) = compareOfLessAndEq a b
  simp only [compareOfLessAndEq, hlt, add_left_inj]

theorem compare_add_one_zero {a : UInt8} (ha : a ≠ 255) : compare (a + 1) 0 = .gt := by
  revert a
  decide +kernel

theorem compare_zero_add_one {a : UInt8} (ha : a ≠ 255) : compare 0 (a + 1) = .lt := by
  revert a
  decide +kernel

theorem compare_255 {a : UInt8} (ha : a ≠ 255) : compare 255 a = .gt := by
  revert a
  decide +kernel

/-- Stored paths are ordered as the paths are. -/
theorem compare_encodePath {a b : Bytes} (ha : ∀ byte ∈ a, byte ≠ 255)
    (hb : ∀ byte ∈ b, byte ≠ 255) :
    compare (a.map (· + 1) ++ [0]) (b.map (· + 1) ++ [0]) = compare a b :=
  Lexicographic.compare_terminated (fun x hx y hy => compare_add_one (ha x hx) (hb y hy))
    (fun x hx => compare_add_one_zero (ha x hx)) (fun y hy => compare_zero_add_one (hb y hy))

/-- The sentinel is behind every path. -/
theorem compare_sentinel {path : Bytes} (h : ∀ byte ∈ path, byte ≠ 255) :
    compare noAttestationSentinel path = .gt := by
  have hnot : ¬noAttestationSentinel <+: path := by
    intro hbegin
    exact h 255 (hbegin.subset (by decide)) rfl
  have hlt : compare noAttestationSentinel path ≠ .lt := fun hlt =>
    hnot ((Lexicographic.compare_replicate_eq_lt (fun x _ hx => compare_255 hx) 8).mp hlt).1
  have heq : compare noAttestationSentinel path ≠ .eq := fun heq =>
    hnot (by rw [Std.LawfulEqOrd.eq_of_compare heq])
  cases hcompare : compare noAttestationSentinel path with
  | lt => exact absurd hcompare hlt
  | eq => exact absurd hcompare heq
  | gt => rfl

/-- The stored sentinel is in front of a stored path exactly when the path starts with eight forks
at child 254. -/
theorem compare_sentinel_encodePath (path : Bytes) :
    compare noAttestationSentinel (path.map (· + 1) ++ [0]) = .lt ↔
      List.replicate 8 254 <+: path := by
  have hne : path.map (· + 1) ++ [0] ≠ noAttestationSentinel := by
    intro heq
    have hlast := congrArg List.getLast? heq
    simp [noAttestationSentinel] at hlast
  have hmap : noAttestationSentinel = (List.replicate 8 254 : Bytes).map (· + 1) := by decide
  rw [noAttestationSentinel,
    Lexicographic.compare_replicate_eq_lt (fun x _ hx => compare_255 hx) 8,
    ← noAttestationSentinel, and_iff_left hne]
  rw [List.prefix_concat_iff, or_iff_right (Ne.symm hne), hmap,
    List.prefix_map_iff_of_injective (add_left_injective 1)]

/-- The encoding of a pair of keys embeds their order exactly when they do not clash. -/
theorem orderEmbedded_iff {a b encodedA encodedB : Bytes}
    (ha : encodeOrderKeyForLmdb a = .ok encodedA) (hb : encodeOrderKeyForLmdb b = .ok encodedB) :
    OrderEmbedded a b encodedA encodedB ↔ ¬SentinelClash a b := by
  have hinjective : encodedA = encodedB → a = b := by
    rintro rfl
    exact encodeOrderKeyForLmdb_injective ha hb
  have horder : OrderEmbedded a b encodedA encodedB ↔
      (compare encodedA encodedB = .lt ↔ compare a b = .lt) := by
    unfold OrderEmbedded compareOrderKeys
    rw [and_iff_right (decodeOrderKey_encode ha), and_iff_right (decodeOrderKey_encode hb),
      and_iff_right hinjective]
  rw [horder]
  unfold SentinelClash
  rcases encodeOrderKeyForLmdb_eq_ok.mp ha with ⟨rfl, rfl⟩ | ⟨hneA, -, hbytesA, rfl⟩
  · rcases encodeOrderKeyForLmdb_eq_ok.mp hb with ⟨rfl, rfl⟩ | ⟨hneB, -, hbytesB, rfl⟩
    · exact iff_of_true Iff.rfl (by decide)
    · rw [compare_sentinel_encodePath, compare_sentinel hbytesB]
      simp [hneB]
  · rcases encodeOrderKeyForLmdb_eq_ok.mp hb with ⟨rfl, rfl⟩ | ⟨hneB, -, hbytesB, rfl⟩
    · have hlogical : compare a noAttestationSentinel = .lt :=
        Std.OrientedCmp.gt_iff_lt.mp (compare_sentinel hbytesA)
      have hne : a.map (· + 1) ++ [0] ≠ noAttestationSentinel := by
        intro heq
        exact hneA (hinjective heq)
      have hstored : compare (a.map (· + 1) ++ [0]) noAttestationSentinel = .lt ↔
          ¬compare noAttestationSentinel (a.map (· + 1) ++ [0]) = .lt := by
        rw [← Std.OrientedCmp.gt_iff_lt]
        cases hcompare : compare noAttestationSentinel (a.map (· + 1) ++ [0]) with
        | lt => simp
        | gt => simp
        | eq => exact absurd (Std.LawfulEqOrd.eq_of_compare hcompare).symm hne
      rw [hstored, compare_sentinel_encodePath, hlogical]
      simp [hneA]
    · rw [compare_encodePath hbytesA hbytesB]
      exact iff_of_true Iff.rfl (by simp [hneA, hneB])

/-! ### Listings -/

/-- The rows of `COMMITMENT_ORDER` are stored under encoded keys. -/
def StorageStore.KeysEncoded (s : StorageStore) : Prop :=
  ∀ encodedKey baoRoot, s.orderRow encodedKey = some baoRoot →
    ∃ key, encodeOrderKeyForLmdb key = .ok encodedKey

/-- The logical key has a row in `COMMITMENT_ORDER`. -/
def StorageStore.HasOrderKey (s : StorageStore) (key : Bytes) : Prop :=
  ∃ encodedKey baoRoot, encodeOrderKeyForLmdb key = .ok encodedKey ∧
    s.orderRow encodedKey = some baoRoot

theorem mem_commitmentOrder {s : StorageStore} {encodedKey : Bytes} {baoRoot : Bytes32} :
    (encodedKey, baoRoot) ∈ s.commitmentOrder.toList ↔ s.orderRow encodedKey = some baoRoot := by
  rw [Std.ExtTreeMap.mem_toList_iff_getElem?_eq_some, StorageStore.orderRow]

/-- A row with its key decoded. -/
def decodedRow (row : Bytes × Bytes32) : Bytes × Bytes32 :=
  ((decodeOrderKeyFromLmdb row.1).toOption.getD [], row.2)

theorem decodedRow_encode {key encodedKey : Bytes} (h : encodeOrderKeyForLmdb key = .ok encodedKey)
    (baoRoot : Bytes32) : decodedRow (encodedKey, baoRoot) = (key, baoRoot) := by
  simp [decodedRow, decodeOrderKey_encode h, Except.toOption]

/-- Rows under encoded keys are all listed. -/
theorem listCommitmentsByOrder_ok {s : StorageStore} (h : s.KeysEncoded) :
    s.listCommitmentsByOrder = .ok (s.commitmentOrder.toList.map decodedRow) := by
  refine mapM_eq_ok ?_
  rintro ⟨encodedKey, baoRoot⟩ hrow
  obtain ⟨key, hkey⟩ := h encodedKey baoRoot (mem_commitmentOrder.mp hrow)
  simp [decodedRow, decodeOrderKey_encode hkey, Result.context, Except.toOption]

/-- The listing is in the order of the logical keys. -/
def StorageStore.ListsInOrder (s : StorageStore) : Prop :=
  ∃ rows, s.listCommitmentsByOrder = .ok rows ∧
    rows.Pairwise fun row next => compareOrderKeys row.1 next.1 = .lt

/-- The listing is in the order of the logical keys exactly when no two of them clash. -/
theorem listsInOrder_iff {s : StorageStore} (h : s.KeysEncoded) :
    s.ListsInOrder ↔ ∀ a b, s.HasOrderKey a → s.HasOrderKey b → ¬SentinelClash a b := by
  have hstored := s.commitmentOrder.ordered_keys_toList
  unfold StorageStore.ListsInOrder
  rw [listCommitmentsByOrder_ok h]
  constructor
  · rintro ⟨rows, hrows, hsorted⟩ a b ⟨encodedA, rootA, hencodeA, hrowA⟩
      ⟨encodedB, rootB, hencodeB, hrowB⟩
    cases hrows
    rw [List.pairwise_map] at hsorted
    -- both orders run the same way through the rows, so they agree on any two of them
    let agree : Bytes × Bytes32 → Bytes × Bytes32 → Prop := fun row next =>
      (compare row.1 next.1 = .lt ↔ compareOrderKeys (decodedRow row).1 (decodedRow next).1 = .lt)
    have hforward : s.commitmentOrder.toList.Pairwise agree :=
      (hstored.and hsorted).imp fun hboth => iff_of_true hboth.1 hboth.2
    have hbackward : s.commitmentOrder.toList.Pairwise (flip agree) := by
      refine (hstored.and hsorted).imp ?_
      rintro row next ⟨hlt, hlogical⟩
      have hgt : compare next.1 row.1 = .gt := Std.OrientedCmp.gt_iff_lt.mpr hlt
      have hlogicalGt : compare (decodedRow next).1 (decodedRow row).1 = .gt :=
        Std.OrientedCmp.gt_iff_lt.mpr hlogical
      simp [flip, agree, compareOrderKeys, hgt, hlogicalGt]
    have hpair := List.Pairwise.forall_of_forall_of_flip
      (fun row _ => by simp [agree, compareOrderKeys, Std.ReflOrd.compare_self])
      hforward hbackward (mem_commitmentOrder.mpr hrowA) (mem_commitmentOrder.mpr hrowB)
    simp only [agree, decodedRow_encode hencodeA, decodedRow_encode hencodeB] at hpair
    refine (orderEmbedded_iff hencodeA hencodeB).mp
      ⟨decodeOrderKey_encode hencodeA, decodeOrderKey_encode hencodeB, ?_, hpair⟩
    rintro rfl
    exact encodeOrderKeyForLmdb_injective hencodeA hencodeB
  · intro hclash
    refine ⟨_, rfl, List.pairwise_map.mpr (hstored.imp_of_mem ?_)⟩
    rintro ⟨encodedA, rootA⟩ ⟨encodedB, rootB⟩ hmemA hmemB hlt
    have hrowA := mem_commitmentOrder.mp hmemA
    have hrowB := mem_commitmentOrder.mp hmemB
    obtain ⟨a, hencodeA⟩ := h _ _ hrowA
    obtain ⟨b, hencodeB⟩ := h _ _ hrowB
    rw [decodedRow_encode hencodeA, decodedRow_encode hencodeB]
    have hembedded := (orderEmbedded_iff hencodeA hencodeB).mpr
      (hclash a b ⟨_, _, hencodeA, hrowA⟩ ⟨_, _, hencodeB, hrowB⟩)
    exact hembedded.2.2.2.mp hlt

/-- The encoding embeds the order of two keys exactly when they do not clash, and so the listing is
in the order of the logical keys. -/
theorem orderKeyEncoding_iff (a b encodedA encodedB : Bytes)
    (ha : encodeOrderKeyForLmdb a = .ok encodedA) (hb : encodeOrderKeyForLmdb b = .ok encodedB)
    (s : StorageStore) (hs : s.KeysEncoded) :
    (OrderEmbedded a b encodedA encodedB ↔ ¬SentinelClash a b) ∧
      (s.ListsInOrder ↔ ∀ a b, s.HasOrderKey a → s.HasOrderKey b → ¬SentinelClash a b) :=
  ⟨orderEmbedded_iff ha hb, listsInOrder_iff hs⟩

/-- The sentinel is stored in front of the path of nine forks at child 254, which is in front of
it. -/
theorem orderKeyEncoding_not_embedded :
    ¬∀ a b encodedA encodedB, encodeOrderKeyForLmdb a = .ok encodedA →
      encodeOrderKeyForLmdb b = .ok encodedB → OrderEmbedded a b encodedA encodedB := by
  intro h
  have hclash := h noAttestationSentinel (List.replicate 9 254) _ _ rfl rfl
  exact absurd hclash.2.2.2 (by decide)

/-- A store with the paths `0` and `0, 1`. -/
def twoPaths : StorageStore :=
  (StorageStore.empty.putOrderRow [1, 0] (Bytes32.replicate 1)).putOrderRow [1, 2, 0]
    (Bytes32.replicate 2)

theorem twoPaths_keys {encodedKey : Bytes} {baoRoot : Bytes32}
    (h : twoPaths.orderRow encodedKey = some baoRoot) :
    encodeOrderKeyForLmdb [0] = .ok encodedKey ∨ encodeOrderKeyForLmdb [0, 1] = .ok encodedKey := by
  unfold twoPaths at h
  rw [StorageStore.orderRow_putOrderRow] at h
  split at h
  · rename_i hkey
    rw [← hkey]
    exact .inr rfl
  · rw [StorageStore.orderRow_putOrderRow] at h
    split at h
    · rename_i hkey
      rw [← hkey]
      exact .inl rfl
    · simp [StorageStore.orderRow, StorageStore.empty] at h

theorem orderKeyEncoding_paths :
    OrderEmbedded [0] [0, 1] [1, 0] [1, 2, 0] ∧ twoPaths.ListsInOrder := by
  have hkeys : twoPaths.KeysEncoded := by
    intro encodedKey baoRoot hrow
    rcases twoPaths_keys hrow with hkey | hkey
    · exact ⟨_, hkey⟩
    · exact ⟨_, hkey⟩
  have hboth := orderKeyEncoding_iff [0] [0, 1] [1, 0] [1, 2, 0] rfl rfl twoPaths hkeys
  refine ⟨hboth.1.mpr ?_, hboth.2.mpr ?_⟩
  · unfold SentinelClash
    decide
  · have hpath : ∀ key, twoPaths.HasOrderKey key → key ≠ noAttestationSentinel := by
      rintro _ ⟨encodedKey, baoRoot, hencode, hrow⟩ rfl
      rcases twoPaths_keys hrow with hkey | hkey
      · exact absurd (encodeOrderKeyForLmdb_injective hencode hkey) (by decide)
      · exact absurd (encodeOrderKeyForLmdb_injective hencode hkey) (by decide)
    rintro a b ha hb (⟨hsentinel, -⟩ | ⟨hsentinel, -⟩)
    · exact hpath a ha hsentinel
    · exact hpath b hb hsentinel

end Lord.Storage
