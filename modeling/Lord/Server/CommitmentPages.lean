import Lord.Commit.TableWrites
import Lord.Lib.Pages

/-! The pages of the timestamped commitments.  A run may leave order rows that no key of their root
names, but no row without a commitment, so the pages show the whole listing and none panics. -/

namespace Lord.Server

open Storage Ots Commit Runs

/-- The errors of the requests for commitments. -/
inductive ServerError where
  | badRequest (message : String)
  | internal (err : Error)
  | forbidden (message : String)
  | gone (message : String)
  | notFound (message : String)
  deriving Repr, DecidableEq

/-- How a request ends that is not answered. -/
inductive Stop where
  | error (err : ServerError)
  | panic (message : String)
  deriving Repr, DecidableEq

abbrev CommitmentListItem := CommitmentListEntry

structure CommitmentsPage where
  entries : List CommitmentListItem
  page : Nat
  totalPages : Nat
  deriving Repr, DecidableEq

def commitmentsPageSize : Nat := 100

/-- The entry of an order row. -/
def pageItem (store : StorageStore) (ordered : Bytes × Bytes32) : Except Stop CommitmentListItem :=
  match store.getCommitment ordered.2 with
  | none => .error (.panic "ordered commitment must exist")
  | some row =>
    .ok { baoRoot := Hex.encode ordered.2.val, otsOrderKey := Hex.encode ordered.1,
          carbonadoPath := row.carbonadoPath, format := row.format,
          timestampedAt := row.timestampedAt }

/-- `/commitments/{page}`, over the store as it was opened. -/
def commitmentsListPaginated (opened : Result StorageStore) (page : Nat) :
    Except Stop CommitmentsPage :=
  match opened with
  | .error err => .error (.error (.internal err))
  | .ok store =>
    match store.listCommitmentsByOrder with
    | .error err => .error (.error (.internal err))
    | .ok ordered =>
      let totalPages := Pages.count commitmentsPageSize ordered.length
      if totalPages ≤ page then
        .error (.error (.notFound s!"commitments page {page}"))
      else do
        let entries ← (Pages.page commitmentsPageSize ordered page).mapM (pageItem store)
        .ok ⟨entries, page, totalPages⟩

/-- `/commitments` is the first page. -/
def commitmentsList (opened : Result StorageStore) : Except Stop CommitmentsPage :=
  commitmentsListPaginated opened 0

/-! ### Order rows and their commitments -/

/-- Every order row is stored under an encoded key, and its root has a row. -/
def OrderOwned (s : StorageStore) : Prop :=
  ∀ encodedKey baoRoot, s.orderRow encodedKey = some baoRoot →
    (s.getCommitment baoRoot).isSome ∧ ∃ key, encodeOrderKeyForLmdb key = .ok encodedKey

theorem OrderOwned.empty : OrderOwned .empty := by
  intro encodedKey baoRoot h
  simp [StorageStore.orderRow, StorageStore.empty] at h

theorem OrderOwned.keysEncoded {s : StorageStore} (h : OrderOwned s) : s.KeysEncoded :=
  fun encodedKey baoRoot hrow => (h encodedKey baoRoot hrow).2

/-- A write that puts no order row keeps this. -/
theorem OrderOwned.of_subset {s t : StorageStore} (h : OrderOwned s)
    (hrows : ∀ r, (s.getCommitment r).isSome → (t.getCommitment r).isSome)
    (horder : ∀ encodedKey baoRoot, t.orderRow encodedKey = some baoRoot →
      s.orderRow encodedKey = some baoRoot) : OrderOwned t := by
  intro encodedKey baoRoot hrow
  obtain ⟨hsome, hkey⟩ := h encodedKey baoRoot (horder encodedKey baoRoot hrow)
  exact ⟨hrows baoRoot hsome, hkey⟩

theorem OrderOwned.otsWrite {s t : StorageStore} (h : OrderOwned s) (hwrite : OtsWrite s t)
    (hrows : ∀ r, (s.getCommitment r).isSome → (t.getCommitment r).isSome) : OrderOwned t := by
  cases hwrite with
  | stamp => exact h.of_subset hrows fun _ _ => id
  | @order key encoded owner hencode hrow =>
    intro encodedKey baoRoot horder
    rw [StorageStore.orderRow_putOrderRow] at horder
    split at horder
    · rename_i hsame
      cases horder
      exact ⟨hrow, key, hsame ▸ hencode⟩
    · exact h encodedKey baoRoot horder
  | unorder encoded =>
    refine h.of_subset hrows fun encodedKey baoRoot horder => ?_
    rw [StorageStore.orderRow_deleteOrderRow] at horder
    split at horder
    · cases horder
    · exact horder

section

variable [Carbonado]

/-- Every write of a call keeps a row behind every order row. -/
theorem OrderOwned.tableWrite (s t : StorageStore) (hwrite : TableWrite s t) (h : OrderOwned s) :
    OrderOwned t := by
  have hrows : ∀ r, (s.getCommitment r).isSome → (t.getCommitment r).isSome :=
    fun r => hwrite.isSome
  cases hwrite with
  | ots hots => exact h.otsWrite hots hrows
  | encode => exact h.of_subset hrows fun _ _ => id
  | fingerprint hfp =>
    cases hfp with
    | mk => exact h.of_subset hrows fun _ _ => id

end

/-! ### Pages of the listing -/

/-- The entry of an order row whose root has a row. -/
def shownEntry (s : StorageStore) (ordered : Bytes × Bytes32) : CommitmentListItem :=
  ((pageItem s ordered).toOption).getD ⟨"", "", "", 0, none⟩

theorem pageItem_eq {s : StorageStore} {ordered : Bytes × Bytes32}
    (h : (s.getCommitment ordered.2).isSome) : pageItem s ordered = .ok (shownEntry s ordered) := by
  obtain ⟨row, hrow⟩ := Option.isSome_iff_exists.mp h
  simp [shownEntry, pageItem, hrow, Except.toOption]

theorem listEntry_eq {s : StorageStore} {ordered : Bytes × Bytes32}
    (h : (s.getCommitment ordered.2).isSome) : listEntry s ordered = .ok (shownEntry s ordered) := by
  obtain ⟨row, hrow⟩ := Option.isSome_iff_exists.mp h
  simp [shownEntry, pageItem, listEntry, hrow, okOr, ok_bind, Except.toOption]

/-- The order rows as they are listed. -/
def orderedRows (s : StorageStore) : List (Bytes × Bytes32) :=
  s.commitmentOrder.toList.map decodedRow

theorem OrderOwned.isSome {s : StorageStore} (h : OrderOwned s) {row : Bytes × Bytes32}
    (hrow : row ∈ orderedRows s) : (s.getCommitment row.2).isSome := by
  obtain ⟨stored, hstored, rfl⟩ := List.mem_map.mp hrow
  exact (h stored.1 stored.2 (mem_commitmentOrder.mp hstored)).1

theorem OrderOwned.listCommitments_eq {s : StorageStore} (h : OrderOwned s) :
    listCommitments s = .ok ((orderedRows s).map (shownEntry s)) :=
  bind_eq_ok.mpr ⟨_, listCommitmentsByOrder_ok h.keysEncoded,
    mapM_eq_ok fun _ hrow => listEntry_eq (h.isSome hrow)⟩

/-- No order key is listed twice. -/
theorem OrderOwned.nodup_keys {s : StorageStore} (h : OrderOwned s) :
    (((orderedRows s).map (shownEntry s)).map CommitmentListEntry.otsOrderKey).Nodup := by
  have hkeys : ((orderedRows s).map (shownEntry s)).map CommitmentListEntry.otsOrderKey =
      (orderedRows s).map fun row => Hex.encode row.1 := by
    rw [List.map_map]
    refine List.map_congr_left fun row hrow => ?_
    obtain ⟨found, hfound⟩ := Option.isSome_iff_exists.mp (h.isSome hrow)
    simp [shownEntry, pageItem, hfound, Except.toOption]
  rw [hkeys, orderedRows, List.map_map]
  refine List.Nodup.map_on ?_ ?_
  · rintro ⟨a, r⟩ ha ⟨b, r'⟩ hb heq
    obtain ⟨key, hkeyA⟩ := h.keysEncoded a r (mem_commitmentOrder.mp ha)
    obtain ⟨key', hkeyB⟩ := h.keysEncoded b r' (mem_commitmentOrder.mp hb)
    have hsame := Hex.encode_injective heq
    rw [decodedRow_encode hkeyA, decodedRow_encode hkeyB] at hsame
    obtain rfl : key = key' := hsame
    rw [hkeyA] at hkeyB
    obtain rfl : a = b := Except.ok.inj hkeyB
    have hrow := mem_commitmentOrder.mp ha
    rw [mem_commitmentOrder.mp hb] at hrow
    rw [Option.some.inj hrow]
  · exact (s.commitmentOrder.distinct_keys_toList).imp fun hne heq =>
      hne (by rw [heq]; exact Std.ReflCmp.compare_self)

/-- The answer to the request for a page. -/
theorem OrderOwned.commitmentsListPaginated_eq {s : StorageStore} (h : OrderOwned s) (p : Nat) :
    commitmentsListPaginated (.ok s) p =
      if Pages.count commitmentsPageSize (orderedRows s).length ≤ p then
        .error (.error (.notFound s!"commitments page {p}"))
      else
        .ok ⟨Pages.page commitmentsPageSize ((orderedRows s).map (shownEntry s)) p, p,
          Pages.count commitmentsPageSize (orderedRows s).length⟩ := by
  have hitems : (Pages.page commitmentsPageSize (orderedRows s) p).mapM (pageItem s) =
      .ok ((Pages.page commitmentsPageSize (orderedRows s) p).map (shownEntry s)) :=
    mapM_eq_ok fun row hrow =>
      pageItem_eq (h.isSome (List.mem_of_mem_drop (List.mem_of_mem_take hrow)))
  have hpage : (Pages.page commitmentsPageSize (orderedRows s) p).map (shownEntry s) =
      Pages.page commitmentsPageSize ((orderedRows s).map (shownEntry s)) p := by
    rw [Pages.page, Pages.page, ← List.map_drop, List.map_take]
  rw [commitmentsListPaginated, listCommitmentsByOrder_ok h.keysEncoded]
  show (if Pages.count commitmentsPageSize (orderedRows s).length ≤ p then _ else _) = _
  rw [← orderedRows, hitems, hpage]
  rfl

/-- The pages show the listing, a hundred entries at a time and no order key twice, and there is no
other page. -/
def ServesPages (s : StorageStore) : Prop :=
  ∃ entries, listCommitments s = .ok entries ∧
    (entries.map CommitmentListEntry.otsOrderKey).Nodup ∧
    ∃ pages : List (List CommitmentListItem), pages.flatten = entries ∧ 0 < pages.length ∧
      (∀ shown ∈ pages, shown.length ≤ commitmentsPageSize) ∧
      (∀ shown ∈ pages.dropLast, shown.length = commitmentsPageSize) ∧
      (∀ p shown, pages[p]? = some shown →
        commitmentsListPaginated (.ok s) p = .ok ⟨shown, p, pages.length⟩) ∧
      ∀ p, pages[p]? = none →
        commitmentsListPaginated (.ok s) p = .error (.error (.notFound s!"commitments page {p}"))

theorem OrderOwned.servesPages {s : StorageStore} (h : OrderOwned s) : ServesPages s := by
  have hsize : 0 < commitmentsPageSize := by decide
  let pages := Pages.pages commitmentsPageSize ((orderedRows s).map (shownEntry s))
  have hlength : pages.length = Pages.count commitmentsPageSize (orderedRows s).length := by
    rw [Pages.length_pages, List.length_map]
  refine ⟨_, h.listCommitments_eq, h.nodup_keys, pages, Pages.flatten_pages hsize _,
    hlength ▸ Pages.count_pos _ _, ?_, ?_, ?_, ?_⟩
  · intro shown hshown
    obtain ⟨p, -, rfl⟩ := List.mem_map.mp hshown
    exact Pages.length_page_le _ _ p
  · exact fun shown hshown => Pages.length_of_mem_dropLast hsize hshown
  · intro p shown hshown
    have hlt := (List.getElem?_eq_some_iff.mp hshown).1
    rw [h.commitmentsListPaginated_eq, ← hlength, if_neg (Nat.not_le.mpr hlt)]
    rw [Pages.eq_page hshown]
  · intro p hnone
    rw [List.getElem?_eq_none_iff, hlength] at hnone
    rw [h.commitmentsListPaginated_eq, if_pos hnone]

/-- In every state of a run the pages serve the whole listing, also where the two tables no longer
agree. -/
theorem pages_served [Carbonado] [Digests] [OtsCodec] (dir : DataDir) (calls : List StoreCall) :
    Always StoreCall.exec (fun s => ServesPages s.store) { dir with store := .empty } calls := by
  have howned : Always StoreCall.exec (fun s => OrderOwned s.store) { dir with store := .empty }
      calls := always_of_tableWrite OrderOwned.tableWrite OrderOwned.empty calls
  exact fun front hfront => (howned front hfront).servesPages

end Lord.Server
