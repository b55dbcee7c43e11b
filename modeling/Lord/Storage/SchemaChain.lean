import Lord.Storage.OrderIndex
import Lord.Storage.RekeyRuns

/-! Opening a schema-2 store against the documented chain of migrations, from schema 2 to 3 and from
there to 4. -/

namespace Lord.Storage

open Ots Writes V4MigrationAction

/-! ### The rows of a migrated store -/

theorem checkMigrated_eq_ok {key : Bytes} {row row' : CommitmentMeta} :
    checkMigrated key row = .ok row' ↔ key = row.baoRoot.val ∧ row' = row := by
  unfold checkMigrated
  by_cases hkey : key = row.baoRoot.val
  · have hlen := row.baoRoot.property
    simp [hkey, hlen, eq_comm]
  · by_cases hlen : key.length = 32
    · simp [hkey, hlen]
    · simp [hkey, hlen]

theorem commitmentOrder_rewriteRows (rows : List CommitmentMeta) (order : Table Bytes32) :
    (rewriteRows rows order).commitmentOrder = order := by
  unfold rewriteRows
  have hkeep : ∀ s : StorageStore,
      (rows.foldl StorageStore.putCommitment s).commitmentOrder = s.commitmentOrder := by
    induction rows with
    | nil => exact fun s => rfl
    | cons row rows ih => exact fun s => ih (s.putCommitment row)
  exact hkeep _

theorem getCommitment_foldl (rows : List CommitmentMeta) (s : StorageStore) :
    (rows.foldl StorageStore.putCommitment s).getCommitment =
      applyAll s.getCommitment (rows.map fun row => (row.baoRoot, some row)) := by
  induction rows generalizing s with
  | nil => rfl
  | cons row rows ih =>
    have hput : (s.putCommitment row).getCommitment =
        Function.update s.getCommitment row.baoRoot (some row) := by
      funext r
      rw [StorageStore.getCommitment_putCommitment]
      by_cases hr : r = row.baoRoot
      · simp [hr]
      · simp [hr, Ne.symm hr]
    rw [List.foldl_cons, ih, List.map_cons, applyAll_cons, hput]

theorem getCommitment_rewriteRows {rows : List CommitmentMeta} {order : Table Bytes32}
    (hnodup : (rows.map CommitmentMeta.baoRoot).Nodup) {r : Bytes32} {row : CommitmentMeta} :
    (rewriteRows rows order).getCommitment r = some row ↔ row ∈ rows ∧ row.baoRoot = r := by
  unfold rewriteRows
  rw [getCommitment_foldl]
  set table := applyAll { StorageStore.empty with commitmentOrder := order }.getCommitment
    (rows.map fun row => (row.baoRoot, some row)) with htable
  have hor := applyAll_eq_or { StorageStore.empty with commitmentOrder := order }.getCommitment
    (rows.map fun row => (row.baoRoot, some row)) r
  rw [← htable] at hor
  constructor
  · intro hrow
    rcases hor with ⟨-, heq⟩ | hmem
    · rw [hrow] at heq
      simp [StorageStore.getCommitment, StorageStore.empty] at heq
    · rw [hrow] at hmem
      obtain ⟨found, hfound, heq⟩ := List.mem_map.mp hmem
      obtain ⟨hroot, hsame⟩ := Prod.mk.inj heq
      cases hsame
      exact ⟨hfound, hroot⟩
  · rintro ⟨hrow, rfl⟩
    rcases hor with ⟨hnot, -⟩ | hmem
    · exact absurd ⟨some row, List.mem_map.mpr ⟨row, hrow, rfl⟩⟩ hnot
    · obtain ⟨found, hfound, heq⟩ := List.mem_map.mp hmem
      obtain ⟨hroot, hsame⟩ := Prod.mk.inj heq
      rw [← hsame, List.inj_on_of_nodup_map hnodup hfound hrow hroot]

/-- Rows in the order of their roots stay in it. -/
theorem rows_rewriteRows {rows : List CommitmentMeta} (order : Table Bytes32)
    (hsorted : rows.Pairwise fun row next => compare row.baoRoot.val next.baoRoot.val = .lt) :
    (rewriteRows rows order).rows = rows := by
  have hne : ∀ row next : CommitmentMeta, compare row.baoRoot.val next.baoRoot.val = .lt →
      row.baoRoot ≠ next.baoRoot := by
    intro row next hlt heq
    rw [heq, Std.ReflOrd.compare_self] at hlt
    cases hlt
  have hnodup : (rows.map CommitmentMeta.baoRoot).Nodup :=
    List.pairwise_map.mpr (hsorted.imp fun hlt => hne _ _ hlt)
  have htable : (rewriteRows rows order).rows.Pairwise fun row next =>
      compare row.baoRoot.val next.baoRoot.val = .lt := by
    unfold StorageStore.rows
    refine List.pairwise_map.mpr ?_
    refine (Std.ExtTreeMap.ordered_keys_toList).imp_of_mem ?_
    rintro ⟨key, row⟩ ⟨key', row'⟩ hmem hmem' hlt
    have hrow := Std.ExtTreeMap.mem_toList_iff_getElem?_eq_some.mp hmem
    have hrow' := Std.ExtTreeMap.mem_toList_iff_getElem?_eq_some.mp hmem'
    rwa [← (rewriteRows rows order).keyed key row hrow,
      ← (rewriteRows rows order).keyed key' row' hrow'] at hlt
  have hmem : ∀ row, row ∈ (rewriteRows rows order).rows ↔ row ∈ rows := by
    intro row
    rw [mem_rows, getCommitment_rewriteRows hnodup, and_iff_left rfl]
  refine List.Perm.eq_of_pairwise ?_ htable hsorted ?_
  · intro row next _ _ hlt hgt
    rw [← Std.OrientedCmp.gt_iff_lt, hlt] at hgt
    cases hgt
  · refine (List.perm_ext_iff_of_nodup ?_ ?_).mpr hmem
    · exact List.Nodup.of_map _ (nodup_rows _)
    · exact List.Nodup.of_map _ hnodup

/-! ### Opening a schema-2 store -/

section

variable [OtsCodec]

/-- A database of schema 2. -/
def schema2 (rows : Table CommitmentMetaV2) (order : Table Bytes32) : Database :=
  ⟨2, .v2 rows order⟩

/-- The documented chain: schema 2 to 3, then 3 to 4. -/
def documentedChain (files : MigrationFiles) (db : Database) : Outcome Database := do
  let next ← (migrateV2ToV3 files db).outcome
  migrateV3ToV4 files next

/-- A commitment of a schema-2 store with a proof file. -/
def TimestampedV2 (rows : Table CommitmentMetaV2) (row : CommitmentMetaV2) : Prop :=
  (∃ key : Bytes, rows[key]? = some row) ∧ row.otsProofPath.isSome

/-- Each timestamped commitment has the same key and the same order rows in both stores. -/
def SameOrder (rows : Table CommitmentMetaV2) (s t : StorageStore) : Prop :=
  ∀ row, TimestampedV2 rows row → s.orderKeyOf row.baoRoot = t.orderKeyOf row.baoRoot ∧
    ∀ encodedKey, s.orderRow encodedKey = some row.baoRoot ↔
      t.orderRow encodedKey = some row.baoRoot

/-- Opening leaves each timestamped commitment with the key and the order rows that the documented
chain leaves, and fails as the chain does. -/
def OpensAsDocumented (files : MigrationFiles) (rows : Table CommitmentMetaV2)
    (order : Table Bytes32) : Prop :=
  match documentedChain files (schema2 rows order) with
  | .error fault => openStore files (some (schema2 rows order)) = .error fault
  | .ok documented => ∃ s t : StorageStore,
    openStore files (some (schema2 rows order)) = .ok ⟨schemaVersion, .current s⟩ ∧
      documented = ⟨schemaVersion, .current t⟩ ∧ SameOrder rows s t

/-- The key of the proof of a v2 row, when the proof is readable. -/
def proofKeyV2 (ots : String → Option Bytes) (row : CommitmentMetaV2) : Option Bytes :=
  proofKey ots (CommitmentMeta.fromV2 row)

/-- The roots with readable proofs and the keys of these, in the order of the roots. -/
def readableProofs (ots : String → Option Bytes) (rows : Table CommitmentMetaV2) :
    List (Bytes32 × Bytes) :=
  rows.toList.filterMap fun entry => (proofKeyV2 ots entry.2).map fun key => (entry.2.baoRoot, key)

/-- The table key is the encoding of the order key, or one of its older stored forms. -/
def Names (orderKey encodedKey : Bytes) : Prop :=
  encodedKey ∈ storedKeys orderKey ∨ encodeOrderKeyForLmdb orderKey = .ok encodedKey

/-- Each timestamped commitment has the key of its proof already, and of the table keys that the
proofs name each has what the last proof to name it asks for: its root under the encoding of its
key, and no timestamped root under an older form. -/
structure SettledV2 (ots : String → Option Bytes) (rows : Table CommitmentMetaV2)
    (order : Table Bytes32) : Prop where
  keys : ∀ row, TimestampedV2 rows row → row.otsOrderKey = proofKeyV2 ots row
  rows : ∀ front root orderKey back,
    readableProofs ots rows = front ++ (root, orderKey) :: back →
    ∀ encodedKey, Names orderKey encodedKey → (∀ later ∈ back, ¬Names later.2 encodedKey) →
      if encodeOrderKeyForLmdb orderKey = .ok encodedKey then order[encodedKey]? = some root
      else ∀ row, TimestampedV2 rows row → order[encodedKey]? ≠ some row.baoRoot

section

variable {files : MigrationFiles} {ots : String → Option Bytes} {rows : Table CommitmentMetaV2}
  {order : Table Bytes32} {entries : List Commit.CommitmentEntry}

omit [OtsCodec] in
@[simp] theorem baoRoot_upgradeV2 (entries : List Commit.CommitmentEntry) (value : CommitmentMetaV2) :
    (upgradeV2 entries value).baoRoot = value.baoRoot := by
  unfold upgradeV2
  split <;> rfl

omit [OtsCodec] in
@[simp] theorem otsOrderKey_upgradeV2 (entries : List Commit.CommitmentEntry)
    (value : CommitmentMetaV2) : (upgradeV2 entries value).otsOrderKey = value.otsOrderKey := by
  unfold upgradeV2
  split <;> rfl

omit [OtsCodec] in
@[simp] theorem otsProofPath_upgradeV2 (entries : List Commit.CommitmentEntry)
    (value : CommitmentMetaV2) : (upgradeV2 entries value).otsProofPath = value.otsProofPath := by
  unfold upgradeV2
  split <;> rfl

@[simp] theorem proofKey_upgradeV2 (entries : List Commit.CommitmentEntry)
    (value : CommitmentMetaV2) : proofKey ots (upgradeV2 entries value) = proofKeyV2 ots value := by
  unfold proofKeyV2 proofKey
  rw [otsProofPath_upgradeV2]
  rfl

/-- The store that the step from schema 2 to 3 leaves. -/
def upgradedStore (entries : List Commit.CommitmentEntry) (rows : Table CommitmentMetaV2)
    (order : Table Bytes32) : StorageStore :=
  rewriteRows (rows.toList.map fun entry => upgradeV2 entries entry.2) order

omit [OtsCodec] in
theorem migrateV2ToV3_eq_ok {next : Database} :
    migrateV2ToV3 files (schema2 rows order) = .ok next ↔
      ∃ entries, loadBrecciaTimestamps files = .ok entries ∧
        (∀ (key : Bytes) row, rows[key]? = some row → key = row.baoRoot.val) ∧
        next = ⟨schemaVersion, .current (upgradedStore entries rows order)⟩ := by
  constructor
  · intro h
    obtain ⟨entries, hentries, h⟩ := bind_eq_ok.mp h
    obtain ⟨migrated, hmigrated, h⟩ := bind_eq_ok.mp h
    cases h
    refine ⟨entries, hentries, fun key row hrow => ?_, ?_⟩
    · have hmem : (key, row) ∈ rows.toList :=
        Std.ExtTreeMap.mem_toList_iff_getElem?_eq_some.mpr hrow
      obtain ⟨checked, hchecked⟩ := mapM_ok_mem hmigrated hmem
      rw [checkMigrated_eq_ok, baoRoot_upgradeV2] at hchecked
      exact hchecked.1
    · rw [mapM_ok_map (fun _ _ hchecked => (checkMigrated_eq_ok.mp hchecked).2) hmigrated]
      rfl
  · rintro ⟨entries, hentries, hkeys, rfl⟩
    refine bind_eq_ok.mpr ⟨entries, hentries, bind_eq_ok.mpr ⟨_, mapM_eq_ok ?_, rfl⟩⟩
    rintro ⟨key, row⟩ hmem
    refine checkMigrated_eq_ok.mpr ⟨?_, rfl⟩
    rw [baoRoot_upgradeV2]
    exact hkeys key row (Std.ExtTreeMap.mem_toList_iff_getElem?_eq_some.mp hmem)

theorem migrateV3ToV4_eq_ok {version : Nat} {store : StorageStore} {next : Database} :
    migrateV3ToV4 files ⟨version, .current store⟩ = .ok next ↔
      (∀ row ∈ store.rows, ¬Panics files.ots row) ∧
        ∃ t, applyV4Actions store (planned files.ots store) = .ok t ∧
          next = ⟨schemaVersion, .current t⟩ := by
  constructor
  · intro h
    obtain ⟨actions, hactions, hrest⟩ := bind_eq_ok.mp h
    obtain ⟨t, ht, hnext⟩ := bind_eq_ok.mp hrest
    cases hnext
    obtain ⟨hpanics, rfl⟩ := v4Actions_eq_ok.mp hactions
    exact ⟨hpanics, t, Result.outcome_eq_ok.mp ht, rfl⟩
  · rintro ⟨hpanics, t, ht, rfl⟩
    exact bind_eq_ok.mpr ⟨_, v4Actions_eq_ok.mpr ⟨hpanics, rfl⟩,
      bind_eq_ok.mpr ⟨t, Result.outcome_eq_ok.mpr ht, rfl⟩⟩

/-- Opening a schema-2 store runs the first step only: it leaves the current version behind. -/
theorem openStore_schema2 :
    openStore files (some (schema2 rows order)) =
      (migrateV2ToV3 files (schema2 rows order)).outcome := by
  show ensureSchemaVersion files (schema2 rows order) = _
  rw [ensureSchemaVersion]
  simp only [schema2, schemaVersion, Nat.reduceLT, if_true, Nat.reduceEqDiff, if_false,
    Nat.reduceLeDiff, and_self]
  split
  · rename_i fault hfault
    exact hfault.symm
  · rename_i next hnext
    rw [hnext, ensureSchemaVersion, schema_migrateV2ToV3 hnext]
    simp

omit [OtsCodec] in
/-- The rows of the upgraded store in the order of their roots. -/
theorem rows_upgradedStore (entries : List Commit.CommitmentEntry)
    (hkeys : ∀ (key : Bytes) row, rows[key]? = some row → key = row.baoRoot.val) :
    (upgradedStore entries rows order).rows =
      rows.toList.map fun entry => upgradeV2 entries entry.2 := by
  refine rows_rewriteRows order (List.pairwise_map.mpr ?_)
  refine (Std.ExtTreeMap.ordered_keys_toList).imp_of_mem ?_
  rintro ⟨key, row⟩ ⟨key', row'⟩ hmem hmem' hlt
  have hrow := hkeys key row (Std.ExtTreeMap.mem_toList_iff_getElem?_eq_some.mp hmem)
  have hrow' := hkeys key' row' (Std.ExtTreeMap.mem_toList_iff_getElem?_eq_some.mp hmem')
  rw [baoRoot_upgradeV2, baoRoot_upgradeV2]
  dsimp only at hlt hrow hrow' ⊢
  rwa [← hrow, ← hrow']

/-- The writes for a readable proof whose key is recorded already. -/
def settledWrites (proof : Bytes32 × Bytes) : List (Bytes × Option Bytes32) :=
  (storedKeys proof.2).map (fun key => (key, none)) ++
    (encodeOrderKeyForLmdb proof.2).toOption.toList.map fun key => (key, some proof.1)

omit [OtsCodec] in
theorem touches_settledWrites {proof : Bytes32 × Bytes} {encodedKey : Bytes} :
    Touches (settledWrites proof) encodedKey ↔ Names proof.2 encodedKey := by
  unfold Names settledWrites
  cases encodeOrderKeyForLmdb proof.2 <;>
    simp [Touches, exists_or, Except.toOption, eq_comm]

omit [OtsCodec] in
theorem touches_settled {proofs : List (Bytes32 × Bytes)} {encodedKey : Bytes} :
    Touches (proofs.flatMap settledWrites) encodedKey ↔
      ∃ proof ∈ proofs, Names proof.2 encodedKey := by
  simp only [← touches_settledWrites, Touches, List.mem_flatMap]
  constructor
  · rintro ⟨value, proof, hproof, hmem⟩
    exact ⟨proof, hproof, value, hmem⟩
  · rintro ⟨proof, hproof, value, hmem⟩
    exact ⟨value, proof, hproof, hmem⟩

omit [OtsCodec] in
/-- The last proof to name a table key decides its row. -/
theorem applyAll_settled {index : Bytes → Option Bytes32} {front back : List (Bytes32 × Bytes)}
    {root : Bytes32} {orderKey encodedKey : Bytes} (hnames : Names orderKey encodedKey)
    (hback : ∀ later ∈ back, ¬Names later.2 encodedKey) :
    applyAll index ((front ++ (root, orderKey) :: back).flatMap settledWrites) encodedKey =
      if encodeOrderKeyForLmdb orderKey = .ok encodedKey then some root else none := by
  have hlast : ¬Touches (back.flatMap settledWrites) encodedKey := by
    rw [touches_settled]
    rintro ⟨later, hlater, hnamed⟩
    exact hback later hlater hnamed
  rw [List.flatMap_append, List.flatMap_cons, applyAll_append, applyAll_append,
    applyAll_of_not_touches hlast]
  unfold settledWrites
  rw [applyAll_append]
  dsimp only
  cases hencode : encodeOrderKeyForLmdb orderKey with
  | error err =>
    have hmem : encodedKey ∈ storedKeys orderKey := by
      rcases hnames with hmem | heq
      · exact hmem
      · rw [hencode] at heq
        cases heq
    simp [Except.toOption, applyAll_deletes, hmem]
  | ok encoded =>
    by_cases heq : encodedKey = encoded
    · simp [Except.toOption, heq]
    · have hmem : encodedKey ∈ storedKeys orderKey := by
        rcases hnames with hmem | hencoded
        · exact hmem
        · rw [hencode] at hencoded
          exact absurd (Except.ok.inj hencoded).symm heq
      simp [Except.toOption, heq, Ne.symm heq, applyAll_deletes, hmem]

/-- The writes of the v4 migration when each timestamped commitment has the key of its proof. -/
theorem planned_writes (hkeys : ∀ (key : Bytes) row, rows[key]? = some row → key = row.baoRoot.val)
    (hsettled : ∀ row, TimestampedV2 rows row → row.otsOrderKey = proofKeyV2 ots row) :
    (planned ots (upgradedStore entries rows order)).flatMap V4MigrationAction.writes =
      (readableProofs ots rows).flatMap settledWrites := by
  unfold planned readableProofs
  rw [rows_upgradedStore entries hkeys]
  have hlist : ∀ entry ∈ rows.toList, entry.2.otsProofPath.isSome →
      entry.2.otsOrderKey = proofKeyV2 ots entry.2 := by
    rintro ⟨key, row⟩ hmem hpath
    exact hsettled row ⟨⟨key, Std.ExtTreeMap.mem_toList_iff_getElem?_eq_some.mp hmem⟩, hpath⟩
  generalize rows.toList = list at hlist
  induction list with
  | nil => rfl
  | cons entry rest ih =>
    have hrest := ih fun e he => hlist e (List.mem_cons_of_mem _ he)
    rw [List.map_cons, List.filterMap_cons, List.filterMap_cons]
    cases hpath : entry.2.otsProofPath with
    | none =>
      have hplan : plannedAction ots (upgradeV2 entries entry.2) = none := by
        simp [plannedAction, hpath]
      have hproof : proofKeyV2 ots entry.2 = none := by
        simp [proofKeyV2, proofKey, CommitmentMeta.fromV2, hpath]
      rw [hplan, hproof]
      exact hrest
    | some path =>
      have hkey := hlist entry (by simp) (by simp [hpath])
      cases hproof : proofKeyV2 ots entry.2 with
      | none =>
        rw [hproof] at hkey
        have hplan : plannedAction ots (upgradeV2 entries entry.2) =
            some (.clearStale entry.2.baoRoot []) := by
          simp [plannedAction, hpath, hproof, hkey]
        rw [hplan]
        exact hrest
      | some orderKey =>
        rw [hproof] at hkey
        have hplan : plannedAction ots (upgradeV2 entries entry.2) =
            some (.rekey entry.2.baoRoot orderKey orderKey) := by
          simp [plannedAction, hpath, hproof, hkey]
        rw [hplan]
        simp only [List.flatMap_cons, Option.map_some, hrest]
        rfl

theorem mem_readableProofs {root : Bytes32} {orderKey : Bytes}
    (h : (root, orderKey) ∈ readableProofs ots rows) :
    ∃ row, TimestampedV2 rows row ∧ row.baoRoot = root := by
  obtain ⟨⟨key, row⟩, hmem, hproof⟩ := List.mem_filterMap.mp h
  obtain ⟨found, hfound, heq⟩ := Option.map_eq_some_iff.mp hproof
  obtain ⟨rfl, rfl⟩ := Prod.mk.inj heq
  refine ⟨row, ⟨⟨key, Std.ExtTreeMap.mem_toList_iff_getElem?_eq_some.mp hmem⟩, ?_⟩, rfl⟩
  dsimp only at hfound
  unfold proofKeyV2 proofKey at hfound
  obtain ⟨path, hpath, -⟩ := Option.bind_eq_some_iff.mp hfound
  exact Option.isSome_iff_exists.mpr ⟨path, hpath⟩

/-- Where the documented chain succeeds, opening leaves what it leaves exactly when each timestamped
commitment is settled already. -/
theorem sameOrder_iff {next : Database}
    (hchain : documentedChain files (schema2 rows order) = .ok next) :
    ∃ s t : StorageStore,
      openStore files (some (schema2 rows order)) = .ok ⟨schemaVersion, .current s⟩ ∧
        next = ⟨schemaVersion, .current t⟩ ∧
        (SameOrder rows s t ↔ SettledV2 files.ots rows order) := by
  obtain ⟨upgraded, hupgraded, hv4⟩ := bind_eq_ok.mp hchain
  obtain ⟨entries, -, hkeys, rfl⟩ := migrateV2ToV3_eq_ok.mp (Result.outcome_eq_ok.mp hupgraded)
  obtain ⟨-, t, ht, rfl⟩ := migrateV3ToV4_eq_ok.mp hv4
  refine ⟨upgradedStore entries rows order, t, by rw [openStore_schema2, hupgraded], rfl, ?_⟩
  have hfit := fitAll_planned files.ots (upgradedStore entries rows order)
  obtain ⟨horder, hrows, -⟩ := applyV4Actions_eq_ok hfit ht
  have hindex : ∀ encodedKey, (upgradedStore entries rows order).orderRow encodedKey =
      order[encodedKey]? := by
    intro encodedKey
    rw [StorageStore.orderRow, upgradedStore, commitmentOrder_rewriteRows]
  have hbefore : ∀ row, TimestampedV2 rows row →
      (upgradedStore entries rows order).getCommitment row.baoRoot =
        some (upgradeV2 entries row) := by
    rintro row ⟨⟨key, hrow⟩, -⟩
    rw [← baoRoot_upgradeV2 entries row, ← mem_rows, rows_upgradedStore entries hkeys]
    exact List.mem_map.mpr ⟨(key, row), Std.ExtTreeMap.mem_toList_iff_getElem?_eq_some.mpr hrow, rfl⟩
  have hkeyBefore : ∀ row, TimestampedV2 rows row →
      (upgradedStore entries rows order).orderKeyOf row.baoRoot = row.otsOrderKey := by
    intro row hrow
    rw [StorageStore.orderKeyOf, hbefore row hrow]
    exact otsOrderKey_upgradeV2 entries row
  have hkeyAfter : ∀ row, TimestampedV2 rows row →
      t.orderKeyOf row.baoRoot = proofKeyV2 files.ots row := by
    intro row hrow
    have htimestamped : (upgradedStore entries rows order).Timestamped (upgradeV2 entries row) :=
      ⟨by rw [baoRoot_upgradeV2, hbefore row hrow], by rw [otsProofPath_upgradeV2]; exact hrow.2⟩
    obtain ⟨a, ha, hroot, -, hnew⟩ := @exists_planned _ files.ots _ _ htimestamped
    have hafter := hrows a ha
    rw [hroot, baoRoot_upgradeV2, hbefore row hrow, hnew, proofKey_upgradeV2] at hafter
    rw [StorageStore.orderKeyOf, hafter]
    rfl
  have htable : (∀ row, TimestampedV2 rows row → row.otsOrderKey = proofKeyV2 files.ots row) →
      ∀ encodedKey, t.orderRow encodedKey = applyAll (fun k => order[k]?)
        ((readableProofs files.ots rows).flatMap settledWrites) encodedKey := by
    intro hsettled encodedKey
    rw [horder, planned_writes hkeys hsettled, funext hindex]
  constructor
  · intro hall
    have hsettled : ∀ row, TimestampedV2 rows row →
        row.otsOrderKey = proofKeyV2 files.ots row := by
      intro row hrow
      rw [← hkeyBefore row hrow, (hall row hrow).1, hkeyAfter row hrow]
    refine ⟨hsettled, ?_⟩
    intro front root orderKey back hsplit encodedKey hnames hback
    have hvalue := htable hsettled encodedKey
    rw [hsplit, applyAll_settled hnames hback] at hvalue
    split
    · rename_i hencode
      obtain ⟨row, hrow, rfl⟩ := @mem_readableProofs _ files.ots rows root orderKey
        (by rw [hsplit]; simp)
      rw [if_pos hencode] at hvalue
      rw [← hindex]
      exact ((hall row hrow).2 encodedKey).mpr hvalue
    · rename_i hencode
      intro row hrow howned
      rw [← hindex] at howned
      rw [if_neg hencode, ((hall row hrow).2 encodedKey).mp howned] at hvalue
      cases hvalue
  · intro hsettled row hrow
    refine ⟨?_, fun encodedKey => ?_⟩
    · rw [hkeyBefore row hrow, hkeyAfter row hrow, hsettled.keys row hrow]
    rw [htable hsettled.keys, hindex]
    by_cases hnamed : ∃ proof ∈ readableProofs files.ots rows, Names proof.2 encodedKey
    · obtain ⟨front, ⟨root, orderKey⟩, back, hsplit, hnames, hback⟩ := exists_last hnamed
      have hcond := hsettled.rows front root orderKey back hsplit encodedKey hnames hback
      rw [hsplit, applyAll_settled hnames hback]
      split at hcond
      · rename_i hencode
        rw [hcond, if_pos hencode]
      · rename_i hencode
        rw [if_neg hencode]
        exact iff_of_false (hcond row hrow) (by rintro ⟨⟩)
    · rw [applyAll_of_not_touches fun htouches => hnamed (touches_settled.mp htouches)]

/-- Opening a schema-2 store is the documented chain exactly when its first step fails, or the chain
succeeds and each timestamped commitment is settled already. -/
theorem opensAsDocumented_iff (files : MigrationFiles) (rows : Table CommitmentMetaV2)
    (order : Table Bytes32) :
    OpensAsDocumented files rows order ↔
      (∃ err, migrateV2ToV3 files (schema2 rows order) = .error err) ∨
        (∃ next, documentedChain files (schema2 rows order) = .ok next) ∧
          SettledV2 files.ots rows order := by
  unfold OpensAsDocumented
  cases hfirst : migrateV2ToV3 files (schema2 rows order) with
  | error err =>
    have hchain : documentedChain files (schema2 rows order) = .error (.err err) := by
      rw [documentedChain, hfirst]
      rfl
    rw [hchain]
    refine iff_of_true ?_ (.inl ⟨err, rfl⟩)
    dsimp only
    rw [openStore_schema2, hfirst]
    rfl
  | ok upgraded =>
    have hopen : openStore files (some (schema2 rows order)) = .ok upgraded := by
      rw [openStore_schema2, hfirst]
      rfl
    cases hchain : documentedChain files (schema2 rows order) with
    | error fault => simp [hopen]
    | ok next =>
      obtain ⟨s, t, hs, rfl, hiff⟩ := sameOrder_iff hchain
      dsimp only
      rw [← hiff]
      constructor
      · rintro ⟨s', t', hs', ht', hsame⟩
        rw [hs] at hs'
        cases hs'
        cases ht'
        exact .inr ⟨⟨_, rfl⟩, hsame⟩
      · rintro (⟨err, herr⟩ | ⟨-, hsame⟩)
        · cases herr
        · exact ⟨s, t, hs, rfl, hsame⟩

end

end

/-! ### A pre-v4 key under schema 4 -/

section

attribute [local instance] Format.sha256Digests Format.sha256Codec

def schema2Files : MigrationFiles := ⟨"/lord/storage", "/lord/breccia/global.breccia", migrationOts, none⟩

/-- A commitment of a schema-2 store with a key of eight bytes, whose proof has the empty key. -/
def schema2Row : CommitmentMetaV2 where
  baoRoot := pendingRoot
  carbonadoPath := "2.c12"
  format := 12
  visibility := .pub
  layout := .inboard
  filepackFp := none
  createdAt := 0
  otsProofPath := some "ots/2.ots"
  otsOrderKey := some [0, 0, 0, 0, 0, 0, 0, 1]

def schema2Rows : Table CommitmentMetaV2 :=
  (∅ : Table CommitmentMetaV2).insert pendingRoot.val schema2Row

def schema2Order : Table Bytes32 :=
  (∅ : Table Bytes32).insert [0, 0, 0, 0, 0, 0, 0, 1] pendingRoot

/-- The order key of a root in a database of current rows. -/
def Database.orderKeyOf (db : Database) (baoRoot : Bytes32) : Option Bytes :=
  match db.tables with
  | .current store => store.orderKeyOf baoRoot
  | _ => none

/-- Opening keeps the old key, which the documented chain replaces. -/
theorem openStore_keeps_old_key :
    ¬OpensAsDocumented schema2Files schema2Rows schema2Order := by
  have hopened : (openStore schema2Files (some (schema2 schema2Rows schema2Order))).toOption.bind
      (Database.orderKeyOf · pendingRoot) = some [0, 0, 0, 0, 0, 0, 0, 1] := by
    rw [openStore_schema2]
    decide +kernel
  have hdocumented : (documentedChain schema2Files (schema2 schema2Rows schema2Order)).toOption.bind
      (Database.orderKeyOf · pendingRoot) = some [] := by
    decide +kernel
  have hrow : TimestampedV2 schema2Rows schema2Row :=
    ⟨⟨pendingRoot.val, by simp [schema2Rows]⟩, rfl⟩
  unfold OpensAsDocumented
  intro h
  cases hchain : documentedChain schema2Files (schema2 schema2Rows schema2Order) with
  | error fault =>
    rw [hchain] at hdocumented
    cases hdocumented
  | ok next =>
    rw [hchain] at h hdocumented
    obtain ⟨s, t, hs, rfl, hsame⟩ := h
    rw [hs] at hopened
    have hkey := (hsame schema2Row hrow).1
    have hkeyS : s.orderKeyOf pendingRoot = some [0, 0, 0, 0, 0, 0, 0, 1] := hopened
    have hkeyT : t.orderKeyOf pendingRoot = some [] := hdocumented
    rw [show schema2Row.baoRoot = pendingRoot from rfl, hkeyS, hkeyT] at hkey
    cases hkey

end

end Lord.Storage
