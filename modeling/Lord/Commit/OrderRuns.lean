import Lord.Commit.Listing
import Lord.Commit.Upgrade
import Lord.Lib.Runs
import Lord.Ots.Format
import Lord.Storage.Filepack
import Lord.Storage.Verify

/-! Runs of the calls that write the two tables.  An encode or a filepack that reaches a root with an
order key replaces its row and leaves an orphan, and a timestamp whose order key belongs to another
root evicts that root; every other call keeps the agreement of the tables. -/

namespace Lord.Commit

open Storage Ots Runs

/-! ### One timestamp on the tables -/

/-- Another root owns the order key. -/
def Collides (store : StorageStore) (baoRoot : Bytes32) (orderKey : Bytes) : Prop :=
  ∃ encoded owner, encodeOrderKeyForLmdb orderKey = .ok encoded ∧
    store.orderRow encoded = some owner ∧ owner ≠ baoRoot

/-- A failed publication behind a committed transaction, or the committed transaction. -/
theorem publishTimestamp_cases {dir : DataDir} {staged : Staged} (env : TimestampEnv)
    {store : StorageStore} (hcommit : commitUpgradeOrderKey dir.store staged.baoRoot
      staged.row.otsOrderKey staged.updated staged.orderKey = .ok store) :
    (publishTimestamp dir staged env).2.store = store := by
  unfold publishTimestamp
  simp only [hcommit]
  split
  · rfl
  split <;> rfl

/-- What the writes of a timestamp leave in tables that agree. -/
theorem finishTimestamp_store (dir : DataDir) {staged : Staged} (env : TimestampEnv)
    (h : dir.store.Agree) (hrow : dir.store.getCommitment staged.baoRoot = some staged.row) :
    (Collides dir.store staged.baoRoot staged.orderKey ∧
      (∃ err, (finishTimestamp dir staged env).1 = .error err) ∧
      ∃ encoded owner, dir.store.orderRow encoded = some owner ∧
        (finishTimestamp dir staged env).2.store = dir.store.deleteOrderRow encoded) ∨
    (¬Collides dir.store staged.baoRoot staged.orderKey ∧
      ((∃ err, (finishTimestamp dir staged env).1 = .error err) ∧
          (finishTimestamp dir staged env).2.store = dir.store ∨
        (finishTimestamp dir staged env).1 = .ok staged.result ∧
          commitUpgradeOrderKey dir.store staged.baoRoot staged.row.otsOrderKey staged.updated
            staged.orderKey = .ok (finishTimestamp dir staged env).2.store)) := by
  have hkeyOf : dir.store.orderKeyOf staged.baoRoot = staged.row.otsOrderKey := by
    simp [StorageStore.orderKeyOf, hrow]
  have hroot := staged.updated_baoRoot hrow
  have hiff := commitUpgradeOrderKey_iff staged.baoRoot staged.updated staged.orderKey h
  rw [hkeyOf] at hiff
  cases hcommit : commitUpgradeOrderKey dir.store staged.baoRoot staged.row.otsOrderKey
      staged.updated staged.orderKey with
  | error err =>
    have hpublish : publishTimestamp dir staged env = (.error err, dir) := by
      simp only [publishTimestamp, hcommit]
    have hnot : ¬∃ encoded, encodeOrderKeyForLmdb staged.orderKey = .ok encoded ∧
        Free dir.store encoded staged.baoRoot := by
      rw [← hiff, hcommit]
      simp
    unfold finishTimestamp
    simp only [hpublish]
    cases hencode : encodeOrderKeyForLmdb staged.orderKey with
    | error encodeErr =>
      refine .inr ⟨?_, .inl ?_⟩
      · rintro ⟨encoded, -, hok, -⟩
        rw [hencode] at hok
        cases hok
      · rw [rollback_unencodable staged.updated_otsOrderKey hencode]
        exact ⟨⟨_, rfl⟩, rfl⟩
    | ok encoded =>
      obtain ⟨owner, howner, hother⟩ : ∃ owner, dir.store.orderRow encoded = some owner ∧
          owner ≠ staged.baoRoot := by
        by_contra hnone
        refine hnot ⟨encoded, hencode, fun owner howner => ?_⟩
        by_contra hother
        exact hnone ⟨owner, howner, hother⟩
      refine .inl ⟨⟨encoded, owner, hencode, howner, hother⟩, ?_⟩
      rw [rollback_rejected h hrow staged.updated_otsOrderKey hencode howner hother]
      exact ⟨⟨_, rfl⟩, encoded, owner, howner, rfl⟩
  | ok store =>
    obtain ⟨encoded, hencode, hfree⟩ := hiff.mp ⟨store, hcommit⟩
    have hnot : ¬Collides dir.store staged.baoRoot staged.orderKey := by
      rintro ⟨encoded', owner, hencode', howner, hother⟩
      rw [hencode] at hencode'
      cases hencode'
      exact hother (hfree owner howner)
    have hstore := publishTimestamp_cases env hcommit
    refine .inr ⟨hnot, ?_⟩
    unfold finishTimestamp
    rcases hpublish : publishTimestamp dir staged env with ⟨result, dir'⟩
    rw [hpublish] at hstore
    dsimp only at hstore
    cases result with
    | ok _ => exact .inr ⟨rfl, congrArg Except.ok hstore.symm⟩
    | error err =>
      have hback := rollback_committed h hrow hroot staged.updated_otsOrderKey hcommit
      simp only [hstore, hback]
      exact .inl ⟨⟨_, rfl⟩, trivial⟩

section

variable [Digests] [OtsCodec]

/-- The call gets as far as its writes with an order key that another root owns. -/
def HitsOwnedKey (dir : DataDir) (baoRootHex : String) (options : TimestampOptions)
    (env : TimestampEnv) : Prop :=
  ∃ baoRoot key, Submits dir baoRootHex options env baoRoot key ∧ Collides dir.store baoRoot key

omit [Digests] [OtsCodec] in
theorem repairBrecciaFromMeta_store (dir : DataDir) (baoRootHex : String) (row : CommitmentMeta)
    (env : BrecciaEnv) : (repairBrecciaFromMeta dir baoRootHex row env).2.store = dir.store := by
  unfold repairBrecciaFromMeta
  split
  · rfl
  split
  · rfl
  dsimp only
  split <;> rfl

/-- What a timestamp leaves in tables that agree: an evicted owner and an error, the tables as they
were, or a committed transaction. -/
theorem timestampCommitment_store {dir : DataDir} (baoRootHex : String)
    (options : TimestampOptions) (env : TimestampEnv) (h : dir.store.Agree) :
    (HitsOwnedKey dir baoRootHex options env ∧
      (∃ err, (timestampCommitment dir baoRootHex options env).1 = .error (.err err)) ∧
      ∃ encoded owner, dir.store.orderRow encoded = some owner ∧
        (timestampCommitment dir baoRootHex options env).2.store =
          dir.store.deleteOrderRow encoded) ∨
    (¬HitsOwnedKey dir baoRootHex options env ∧
      ((timestampCommitment dir baoRootHex options env).2.store = dir.store ∨
        (∃ result, (timestampCommitment dir baoRootHex options env).1 = .ok result) ∧
          (timestampCommitment dir baoRootHex options env).2.store.Agree)) := by
  have hrun := timestampCommitment_run dir baoRootHex options env
  cases hout : timestampCommitment dir baoRootHex options env with
  | mk outcome dir' =>
  rw [hout] at hrun
  cases hrun with
  | rejected fault hnot =>
    exact .inr ⟨fun ⟨r, key, hsubmits, _⟩ => hnot r key hsubmits, .inl rfl⟩
  | repaired baoRoot row hnot =>
    exact .inr ⟨fun ⟨r, key, hsubmits, _⟩ => hnot r key hsubmits,
      .inl (repairBrecciaFromMeta_store dir baoRootHex row env.breccia)⟩
  | written staged pending hsubmits _ hrow =>
    have hhits : HitsOwnedKey dir baoRootHex options env ↔
        Collides dir.store staged.baoRoot staged.orderKey := by
      constructor
      · rintro ⟨r, key, hsub, hcollides⟩
        obtain ⟨rfl, rfl⟩ := (hsubmits r key).mp hsub
        exact hcollides
      · exact fun hcollides => ⟨_, _, (hsubmits _ _).mpr ⟨rfl, rfl⟩, hcollides⟩
    rw [hhits]
    rcases finishTimestamp_store { dir with pendingOts := pending } env h hrow with
      ⟨hcollides, ⟨err, herr⟩, hevicted⟩ | ⟨hnot, ⟨⟨err, herr⟩, hsame⟩ | ⟨hok, hcommit⟩⟩
    · exact .inl ⟨hcollides, ⟨err, by rw [herr]; rfl⟩, hevicted⟩
    · exact .inr ⟨hnot, .inl hsame⟩
    · refine .inr ⟨hnot, .inr ⟨⟨staged.result, by rw [hok]; rfl⟩, ?_⟩⟩
      have hroot := staged.updated_baoRoot hrow
      exact commitUpgradeOrderKey_agree h hrow hroot staged.updated_otsOrderKey hcommit

end

/-! ### One upgrade on the tables -/

section

variable [OtsCodec]

theorem recordUpgrade_store (dir : DataDir) (staged : StagedUpgrade) (env : UpgradeEnv)
    (upgraded : Bool) : (recordUpgrade dir staged env upgraded).2.store = dir.store := by
  have hrecord : (maybeAppendBrecciaV2AndEnqueueLtp dir staged env).2.store = dir.store := by
    unfold maybeAppendBrecciaV2AndEnqueueLtp
    split
    · rfl
    split
    · rfl
    · rfl
    split <;> rfl
  unfold recordUpgrade
  rcases hrun : maybeAppendBrecciaV2AndEnqueueLtp dir staged env with ⟨result, dir'⟩
  rw [hrun] at hrecord
  cases result <;> exact hrecord

omit [OtsCodec] in
theorem moveOrderKey_store (dir : DataDir) {moved : DataDir} {staged : StagedUpgrade}
    (h : dir.store.Agree)
    (hrow : dir.store.getCommitment staged.baoRoot = some staged.row)
    (hmove : moveOrderKey dir staged = .ok moved) :
    moved.store.Agree ∧ (staged.row.otsOrderKey = some staged.orderKey ∨
      rollbackTimestampLmdb moved.store staged.row staged.row.otsOrderKey staged.updated =
        .ok dir.store) := by
  unfold moveOrderKey at hmove
  split at hmove
  · rename_i hsame
    cases hmove
    exact ⟨h, .inl hsame⟩
  · obtain ⟨store, hcommit, hmoved⟩ := bind_eq_ok.mp hmove
    cases hmoved
    have hroot := staged.updated_baoRoot hrow
    exact ⟨commitUpgradeOrderKey_agree h hrow hroot staged.updated_otsOrderKey hcommit,
      .inr (rollback_committed h hrow hroot staged.updated_otsOrderKey hcommit)⟩

/-- An upgrade keeps the agreement of the tables. -/
theorem applyUpgrade_agree {dir : DataDir} {staged : StagedUpgrade} (env : UpgradeEnv)
    (h : dir.store.Agree) (hrow : dir.store.getCommitment staged.baoRoot = some staged.row) :
    (applyUpgrade dir staged env).2.store.Agree := by
  unfold applyUpgrade
  split
  · split
    · exact h
    · rename_i moved hmove
      rw [recordUpgrade_store]
      exact (moveOrderKey_store dir h hrow hmove).1
  split
  · exact h
  split
  · exact h
  dsimp only
  split
  · exact h
  rename_i moved hmove
  obtain ⟨hmoved, hback⟩ := moveOrderKey_store
    { dir with pendingOts := writeFile dir.pendingOts staged.proofPath staged.proof } h hrow hmove
  have hpublish : (publishUpgrade moved staged env).2.store.Agree := by
    unfold publishUpgrade
    dsimp only
    split
    · exact hmoved
    split
    · exact hmoved
    split
    · exact hmoved
    · rename_i hchanged _ store hrollback
      rw [hback.resolve_left hchanged] at hrollback
      cases hrollback
      exact h
  rcases hrun : publishUpgrade moved staged env with ⟨result, dir'⟩
  rw [hrun] at hpublish
  cases result with
  | error err => exact hpublish
  | ok _ =>
    dsimp only
    rw [recordUpgrade_store]
    exact hpublish

end

/-! ### Runs -/

/-- A call that writes the store of a data directory. -/
inductive StoreCall where
  | encodeFile (env : EncodeEnv) (options : EncodeOptions)
  | createFilepack (env : FilepackEnv) (options : CreateFilepackOptions)
  | timestamp (baoRootHex : String) (options : TimestampOptions) (env : TimestampEnv)
  | upgrade (baoRootHex calendarUpgradeUrl : String) (env : UpgradeEnv)

namespace StoreCall

variable [Carbonado]

/-- The roots whose content the call encodes. -/
def Produces (dir : DataDir) (call : StoreCall) (baoRoot : Bytes32) : Prop :=
  match call with
  | encodeFile env options => Encodes dir env options baoRoot
  | createFilepack env options => Packs dir env options baoRoot
  | timestamp .. => False
  | upgrade .. => False

variable [Digests] [OtsCodec]

/-- The data directory after the call, whatever the call returns. -/
def exec (dir : DataDir) (call : StoreCall) : DataDir :=
  match call with
  | encodeFile env options => (encodeFileWithStore dir env options).2
  | createFilepack env options => (Storage.createFilepack dir env options).2
  | timestamp baoRootHex options env => (timestampCommitment dir baoRootHex options env).2
  | upgrade baoRootHex calendarUpgradeUrl env =>
    (upgradeCommitment dir baoRootHex calendarUpgradeUrl env).2

/-- The call encodes no content whose root has an order key, and stamps no root with an order key
that another root owns. -/
def KeepsIndex (dir : DataDir) (call : StoreCall) : Prop :=
  (∀ baoRoot, call.Produces dir baoRoot → dir.store.orderKeyOf baoRoot = none) ∧
    match call with
    | timestamp baoRootHex options env => ¬HitsOwnedKey dir baoRootHex options env
    | _ => True

/-- A call resets the rows of the roots that it encodes, unless it is a timestamp or an upgrade. -/
theorem exec_resets (dir : DataDir) (call : StoreCall) (h : ∃ baoRoot, call.Produces dir baoRoot) :
    dir.store.Resets (exec dir call).store (call.Produces dir) := by
  cases call with
  | encodeFile env options => exact encodeFileWithStore_resets dir env options
  | createFilepack env options => exact createFilepack_resets dir env options
  | timestamp => exact h.elim fun _ hfalse => hfalse.elim
  | upgrade => exact h.elim fun _ hfalse => hfalse.elim

/-- One call keeps the agreement of the tables exactly under its condition. -/
theorem exec_agree_iff (dir : DataDir) (call : StoreCall) (h : dir.store.Agree) :
    (exec dir call).store.Agree ↔ call.KeepsIndex dir := by
  cases call with
  | encodeFile env options =>
    exact ((encodeFileWithStore_resets dir env options).agree_iff h).trans (and_iff_left trivial).symm
  | createFilepack env options =>
    exact ((createFilepack_resets dir env options).agree_iff h).trans (and_iff_left trivial).symm
  | timestamp baoRootHex options env =>
    have hnone : ∀ baoRoot, (timestamp baoRootHex options env).Produces dir baoRoot →
        dir.store.orderKeyOf baoRoot = none := fun _ hfalse => hfalse.elim
    refine Iff.trans ?_ (and_iff_right hnone).symm
    show (timestampCommitment dir baoRootHex options env).2.store.Agree ↔ _
    rcases timestampCommitment_store baoRootHex options env h with
      ⟨hhits, -, encoded, owner, howner, hevicted⟩ | ⟨hnot, hsame | ⟨-, hagree⟩⟩
    · rw [hevicted]
      exact iff_of_false (not_agree_deleteOrderRow h howner) (not_not_intro hhits)
    · rw [hsame]
      exact iff_of_true h hnot
    · exact iff_of_true hagree hnot
  | upgrade baoRootHex calendarUpgradeUrl env =>
    refine iff_of_true ?_ ⟨fun _ hfalse => hfalse.elim, trivial⟩
    show (upgradeCommitment dir baoRootHex calendarUpgradeUrl env).2.store.Agree
    unfold upgradeCommitment
    split
    · exact h
    · rename_i staged hstage
      obtain ⟨baoRoot, -, hstage⟩ := bind_eq_ok.mp hstage
      obtain ⟨row, hrow, hstage⟩ := bind_eq_ok.mp hstage
      obtain ⟨proofPath, -, hstage⟩ := bind_eq_ok.mp hstage
      obtain ⟨currentProof, -, hstage⟩ := bind_eq_ok.mp hstage
      obtain ⟨proof, -, hstage⟩ := bind_eq_ok.mp hstage
      obtain ⟨_, -, hstage⟩ := bind_eq_ok.mp hstage
      obtain ⟨orderKey, -, hstage⟩ := bind_eq_ok.mp hstage
      cases hstage
      exact applyUpgrade_agree env h (okOr_eq_ok.mp hrow)

end StoreCall

section

variable [Carbonado] [Digests] [OtsCodec]

/-- From an empty store, every state of a run has tables that agree exactly when no call of it
encodes content whose root has an order key or stamps a root with the order key of another; and
then the listing of every state shows each timestamped root once. -/
theorem order_agrees_iff (dir : DataDir) (calls : List StoreCall) :
    let start := { dir with store := StorageStore.empty }
    (Always StoreCall.exec (fun s => s.store.Agree) start calls ↔
      EachStep StoreCall.exec (fun s call => call.KeepsIndex s) start calls) ∧
    (EachStep StoreCall.exec (fun s call => call.KeepsIndex s) start calls →
      Always StoreCall.exec (fun s => ListsAll s.store) start calls) := by
  intro start
  have hiff : Always StoreCall.exec (fun s => s.store.Agree) start calls ↔
      EachStep StoreCall.exec (fun s call => call.KeepsIndex s) start calls :=
    always_iff (fun s call h => StoreCall.exec_agree_iff s call h) StorageStore.Agree.empty
  exact ⟨hiff, fun hsteps front hfront => listsAll_of_agree (hiff.mpr hsteps front hfront)⟩

omit [Carbonado] in
/-- On tables that agree, a timestamp that fails leaves every row of both tables as it was exactly
when it does not get as far as its writes with an order key that another root owns. -/
theorem timestampCommitment_atomic_iff (dir : DataDir) (baoRootHex : String)
    (options : TimestampOptions) (env : TimestampEnv) (h : dir.store.Agree) :
    ((∃ err, (timestampCommitment dir baoRootHex options env).1 = .error (.err err)) →
        (∀ baoRoot, (timestampCommitment dir baoRootHex options env).2.store.getCommitment baoRoot =
          dir.store.getCommitment baoRoot) ∧
        ∀ encoded, (timestampCommitment dir baoRootHex options env).2.store.orderRow encoded =
          dir.store.orderRow encoded) ↔
      ¬HitsOwnedKey dir baoRootHex options env := by
  rcases timestampCommitment_store baoRootHex options env h with
    ⟨hhits, herr, encoded, owner, howner, hevicted⟩ | ⟨hnot, hsame | ⟨⟨result, hok⟩, -⟩⟩
  · refine iff_of_false (fun hatomic => ?_) (not_not_intro hhits)
    have hrow := (hatomic herr).2 encoded
    rw [hevicted, StorageStore.orderRow_deleteOrderRow, if_pos rfl, howner] at hrow
    cases hrow
  · rw [hsame]
    exact iff_of_true (fun _ => ⟨fun _ => rfl, fun _ => rfl⟩) hnot
  · refine iff_of_true ?_ hnot
    rintro ⟨err, herr⟩
    rw [hok] at herr
    cases herr

/-- A call that encodes content leaves the OTS state of its roots exactly when none of their rows
has any. -/
theorem otsState_kept_iff (dir : DataDir) (call : StoreCall) :
    (∀ baoRoot row, call.Produces dir baoRoot → dir.store.getCommitment baoRoot = some row →
        ∃ row', (call.exec dir).store.getCommitment baoRoot = some row' ∧
          row'.otsState = row.otsState) ↔
      ∀ baoRoot row, call.Produces dir baoRoot → dir.store.getCommitment baoRoot = some row →
        row.otsState = (none, none, none) := by
  refine forall_congr' fun baoRoot => forall_congr' fun row => imp_congr_right fun hproduces =>
    imp_congr_right fun hrow => ?_
  have hreset := (StoreCall.exec_resets dir call ⟨baoRoot, hproduces⟩).reset baoRoot hproduces
  obtain ⟨row', hrow', hstate⟩ := Option.map_eq_some_iff.mp hreset
  constructor
  · rintro ⟨row'', hrow'', hsame⟩
    rw [hrow'] at hrow''
    cases hrow''
    rw [← hsame, hstate]
  · intro hnone
    exact ⟨row', hrow', hstate.trans hnone.symm⟩

end

/-! ### Two roots, one order key -/

section

attribute [local instance] exampleCodec Format.sha256Digests Format.sha256Codec

/-- A data directory without any file. -/
def freshDir : DataDir where
  path := "/data"
  store := .empty
  masterKey := none
  carbonado := fun _ => none
  ots := fun _ => none
  pendingOts := fun _ => none
  breccia := none

/-- An encode of five bytes on a file system without faults. -/
def exampleEncode : StoreCall :=
  .encodeFile
    { inputPath := "/data/input", input := .ok [1, 2, 3, 4, 5],
      keyFile := ⟨.ok (), .ok publicMasterKey, .ok (), none, .ok (), 0o644⟩, nonce := [],
      createCarbonadoDir := .ok (), writeCarbonado := .ok (), writePlain := .ok (), now := .ok 0,
      publishCarbonado := .ok (), publishPlain := .ok () }
    { format := 12, layout := .inboard, masterKeyHex := none, plaintext := none }

def exampleTimestamp (baoRoot : Bytes32) : StoreCall :=
  .timestamp (Hex.encode baoRoot.val) dryRun (exampleTimestampEnv 100)

/-- A second encode of a timestamped file resets its row. -/
theorem encode_forgets_timestamp :
    let dir := run StoreCall.exec freshDir [exampleEncode, exampleTimestamp exampleRoot]
    exampleEncode.Produces dir exampleRoot ∧
      (dir.store.getCommitment exampleRoot).map CommitmentMeta.otsState =
        some (some (s!"ots/{Hex.encode exampleRoot.val}.ots"), some [3], some 100) ∧
      ((exampleEncode.exec dir).store.getCommitment exampleRoot).map CommitmentMeta.otsState =
        some (none, none, none) := by
  refine ⟨?_, by decide +kernel, by decide +kernel⟩
  exact ⟨by decide, ⟨rfl, rfl, fun _ => rfl, ⟨0, rfl⟩, rfl, fun _ => rfl⟩, [1, 2, 3, 4, 5],
    publicMasterKey, [0, 1, 2, 3, 4, 5], rfl, by decide, rfl⟩

/-- And it leaves the row of `COMMITMENT_ORDER` an orphan. -/
theorem encode_orphans_order_row :
    ¬Always StoreCall.exec (fun s => s.store.Agree) freshDir
      [exampleEncode, exampleTimestamp exampleRoot, exampleEncode] := by
  intro halways
  have hagree := halways _ (List.prefix_refl _)
  have horder : (run StoreCall.exec freshDir
      [exampleEncode, exampleTimestamp exampleRoot, exampleEncode]).store.orderRow [4, 0] =
        some exampleRoot := by
    decide +kernel
  have hkey : (run StoreCall.exec freshDir
      [exampleEncode, exampleTimestamp exampleRoot, exampleEncode]).store.orderKeyOf exampleRoot =
        none := by
    decide +kernel
  obtain ⟨row, key, hrow, hrowKey, -⟩ := hagree.owned _ _ horder
  rw [StorageStore.orderKeyOf_eq_some.mpr ⟨row, hrow, hrowKey⟩] at hkey
  cases hkey

/-- A root whose stub proof has the order key of the example's. -/
def siblingRoot : Bytes32 := Bytes32.replicate 11

/-- A store in which the example's root owns the order key `[3]` and its sibling has no key. -/
def siblingsDir : DataDir :=
  { freshDir with
    store := ((StorageStore.empty.putCommitment
        { CommitmentMeta.new exampleRoot "a.c12" 12 .inboard 0 with otsOrderKey := some [3] }
      ).putCommitment (.new siblingRoot "b.c12" 12 .inboard 0)).putOrderRow [4, 0] exampleRoot }

theorem siblingsDir_agree : siblingsDir.store.Agree := by
  have hget : ∀ r, siblingsDir.store.getCommitment r =
      if siblingRoot = r then some (.new siblingRoot "b.c12" 12 .inboard 0)
      else if exampleRoot = r then
        some { CommitmentMeta.new exampleRoot "a.c12" 12 .inboard 0 with otsOrderKey := some [3] }
      else none := by
    intro r
    rw [siblingsDir, StorageStore.getCommitment_putOrderRow,
      StorageStore.getCommitment_putCommitment, StorageStore.getCommitment_putCommitment]
    rfl
  have horder : ∀ k, siblingsDir.store.orderRow k = if [4, 0] = k then some exampleRoot else none := by
    intro k
    rw [siblingsDir, StorageStore.orderRow_putOrderRow]
    rfl
  constructor
  · intro r row key hrow hkey
    rw [hget] at hrow
    split at hrow
    · cases hrow
      cases hkey
    · split at hrow
      · rename_i hr
        cases hrow
        cases hkey
        exact ⟨[4, 0], by decide, by rw [horder, if_pos rfl, hr]⟩
      · cases hrow
  · intro k r hindex
    rw [horder] at hindex
    split at hindex
    · rename_i hk
      cases hindex
      subst hk
      exact ⟨_, [3], by rw [hget, if_neg (by decide), if_pos rfl], rfl, by decide⟩
    · cases hindex

/-- A failed timestamp of the sibling deletes the order row of the example's root. -/
theorem timestamp_evicts_owner :
    siblingsDir.store.Agree ∧
      (timestampCommitment siblingsDir (Hex.encode siblingRoot.val) dryRun
        (exampleTimestampEnv 100)).1 =
          .error (.err s!"COMMITMENT_ORDER key 03 already maps to {Hex.encode exampleRoot.val}") ∧
      siblingsDir.store.orderRow [4, 0] = some exampleRoot ∧
      (timestampCommitment siblingsDir (Hex.encode siblingRoot.val) dryRun
        (exampleTimestampEnv 100)).2.store.orderRow [4, 0] = none :=
  ⟨siblingsDir_agree, by decide +kernel, by decide +kernel, by decide +kernel⟩

theorem timestampCommitment_atomic_siblings :
    ((∃ err, (timestampCommitment siblingsDir (Hex.encode siblingRoot.val) dryRun
          (exampleTimestampEnv 100)).1 = .error (.err err)) →
        (∀ baoRoot, (timestampCommitment siblingsDir (Hex.encode siblingRoot.val) dryRun
            (exampleTimestampEnv 100)).2.store.getCommitment baoRoot =
          siblingsDir.store.getCommitment baoRoot) ∧
        ∀ encoded, (timestampCommitment siblingsDir (Hex.encode siblingRoot.val) dryRun
            (exampleTimestampEnv 100)).2.store.orderRow encoded =
          siblingsDir.store.orderRow encoded) ↔
      ¬HitsOwnedKey siblingsDir (Hex.encode siblingRoot.val) dryRun (exampleTimestampEnv 100) :=
  timestampCommitment_atomic_iff siblingsDir _ dryRun (exampleTimestampEnv 100) siblingsDir_agree

end

end Lord.Commit
