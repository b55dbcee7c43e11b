import Lord.Commit.OrderRuns
import Mathlib.Logic.Relation

/-! What a call can write to the two tables, one write after the other.  Each invariant of the tables
then needs one lemma about a write, whichever calls make it. -/

namespace Lord.Commit

open Storage Ots Runs Relation

/-- A row without its OTS state. -/
def content (row : CommitmentMeta) : CommitmentMeta :=
  { row with otsProofPath := none, otsOrderKey := none, timestampedAt := none }

theorem content_baoRoot {row row' : CommitmentMeta} (h : content row' = content row) :
    row'.baoRoot = row.baoRoot :=
  show (content row').baoRoot = (content row).baoRoot by rw [h]

/-- One write of a timestamp or an upgrade. -/
inductive OtsWrite (s : StorageStore) : StorageStore → Prop where
  /-- A row gets another OTS state. -/
  | stamp {row updated : CommitmentMeta} (hrow : s.getCommitment updated.baoRoot = some row)
      (hsame : content updated = content row) : OtsWrite s (s.putCommitment updated)
  | order {key encoded : Bytes} {baoRoot : Bytes32} (hencode : encodeOrderKeyForLmdb key = .ok encoded)
      (hrow : (s.getCommitment baoRoot).isSome) : OtsWrite s (s.putOrderRow encoded baoRoot)
  | unorder (encoded : Bytes) : OtsWrite s (s.deleteOrderRow encoded)

abbrev OtsWrites : StorageStore → StorageStore → Prop := ReflTransGen OtsWrite

/-- A write of a timestamp leaves the content of every row. -/
theorem OtsWrite.map_content {s t : StorageStore} (h : OtsWrite s t) (r : Bytes32) :
    (t.getCommitment r).map content = (s.getCommitment r).map content := by
  cases h with
  | stamp hrow hsame =>
    rw [StorageStore.getCommitment_putCommitment]
    split
    · rename_i hr
      rw [← hr, hrow, Option.map_some, Option.map_some, hsame]
    · rfl
  | order => rfl
  | unorder => rfl

theorem OtsWrites.map_content {s t : StorageStore} (h : OtsWrites s t) (r : Bytes32) :
    (t.getCommitment r).map content = (s.getCommitment r).map content := by
  induction h with
  | refl => rfl
  | tail _ hlast ih => exact (hlast.map_content r).trans ih

/-- The row of a root behind such writes, when it had one. -/
theorem OtsWrites.exists_row {s t : StorageStore} (h : OtsWrites s t) {r : Bytes32}
    {row : CommitmentMeta} (hrow : s.getCommitment r = some row) :
    ∃ row', t.getCommitment r = some row' ∧ content row' = content row := by
  have hmap := h.map_content r
  rw [hrow, Option.map_some, Option.map_eq_some_iff] at hmap
  exact hmap

/-! ### Transactions -/

theorem dropOrderKey_writes {s t : StorageStore} {orderKey : Option Bytes}
    (h : dropOrderKey s orderKey = .ok t) : OtsWrites s t := by
  cases orderKey with
  | none =>
    cases h
    exact .refl
  | some key =>
    obtain ⟨encoded, -, rfl⟩ := deleteCommitmentOrder_ok h
    exact .single (.unorder encoded)

theorem putCommitmentOrder_writes {s t : StorageStore} {key : Bytes} {baoRoot : Bytes32}
    (hrow : (s.getCommitment baoRoot).isSome) (h : s.putCommitmentOrder key baoRoot = .ok t) :
    OtsWrites s t := by
  obtain ⟨encoded, hencode, -, rfl⟩ := putCommitmentOrder_eq_ok.mp h
  exact .single (.order hencode hrow)

theorem commitUpgradeOrderKey_writes {s t : StorageStore} {baoRoot : Bytes32}
    {row updated : CommitmentMeta} {previousOrderKey : Option Bytes} {key : Bytes}
    (hrow : s.getCommitment baoRoot = some row) (hsame : content updated = content row)
    (h : commitUpgradeOrderKey s baoRoot previousOrderKey updated key = .ok t) : OtsWrites s t := by
  obtain ⟨dropped, hdrop, hput⟩ := bind_eq_ok.mp h
  have hdropped := dropOrderKey_writes hdrop
  have hroot : updated.baoRoot = baoRoot :=
    (content_baoRoot hsame).trans (StorageStore.baoRoot_of_getCommitment hrow)
  obtain ⟨row', hrow', hsame'⟩ := hdropped.exists_row hrow
  have hstamp : OtsWrite dropped (dropped.putCommitment updated) :=
    .stamp (hroot ▸ hrow') (hsame.trans hsame'.symm)
  refine (hdropped.tail hstamp).trans (putCommitmentOrder_writes ?_ hput)
  rw [← hroot, StorageStore.getCommitment_putCommitment_self]
  rfl

theorem rollbackTimestampLmdb_writes {s t : StorageStore} {row previousMeta updated : CommitmentMeta}
    {previousOrderKey : Option Bytes} (hrow : s.getCommitment previousMeta.baoRoot = some row)
    (hsame : content previousMeta = content row)
    (h : rollbackTimestampLmdb s previousMeta previousOrderKey updated = .ok t) : OtsWrites s t := by
  obtain ⟨dropped, hdrop, hrestore⟩ := bind_eq_ok.mp h
  have hstamp : OtsWrites s (s.putCommitment previousMeta) := .single (.stamp hrow hsame)
  have hdropped := dropOrderKey_writes hdrop
  refine (hstamp.trans hdropped).trans ?_
  cases previousOrderKey with
  | none =>
    cases hrestore
    exact .refl
  | some key =>
    obtain ⟨row', hrow', -⟩ :=
      hdropped.exists_row (StorageStore.getCommitment_putCommitment_self s previousMeta)
    exact putCommitmentOrder_writes (by rw [hrow']; rfl) hrestore

/-! ### Timestamps and upgrades -/

theorem Staged.content_updated (staged : Staged) : content staged.updated = content staged.row := rfl

theorem StagedUpgrade.content_updated (staged : StagedUpgrade) :
    content staged.updated = content staged.row := rfl

theorem publishTimestamp_writes {dir : DataDir} {staged : Staged} (env : TimestampEnv)
    (hrow : dir.store.getCommitment staged.baoRoot = some staged.row) :
    OtsWrites dir.store (publishTimestamp dir staged env).2.store := by
  cases hcommit : commitUpgradeOrderKey dir.store staged.baoRoot staged.row.otsOrderKey
      staged.updated staged.orderKey with
  | error err =>
    rw [publishTimestamp, hcommit]
  | ok store =>
    rw [publishTimestamp_cases env hcommit]
    exact commitUpgradeOrderKey_writes hrow staged.content_updated hcommit

theorem finishTimestamp_writes {dir : DataDir} {staged : Staged} (env : TimestampEnv)
    (hrow : dir.store.getCommitment staged.baoRoot = some staged.row) :
    OtsWrites dir.store (finishTimestamp dir staged env).2.store := by
  have hpublish := publishTimestamp_writes env hrow
  unfold finishTimestamp
  rcases hrun : publishTimestamp dir staged env with ⟨result, published⟩
  rw [hrun] at hpublish
  cases result with
  | ok _ => exact hpublish
  | error err =>
    dsimp only
    cases hback : rollbackTimestampLmdb published.store staged.row staged.row.otsOrderKey
        staged.updated with
    | error rollbackErr => exact hpublish
    | ok store =>
      obtain ⟨row', hrow', hsame⟩ := hpublish.exists_row hrow
      have hroot := StorageStore.baoRoot_of_getCommitment hrow
      exact hpublish.trans (rollbackTimestampLmdb_writes (hroot ▸ hrow') hsame.symm hback)

section

variable [OtsCodec]

omit [OtsCodec] in
theorem moveOrderKey_writes {dir moved : DataDir} {staged : StagedUpgrade}
    (hrow : dir.store.getCommitment staged.baoRoot = some staged.row)
    (h : moveOrderKey dir staged = .ok moved) : OtsWrites dir.store moved.store := by
  unfold moveOrderKey at h
  split at h
  · cases h
    exact .refl
  · obtain ⟨store, hcommit, hmoved⟩ := bind_eq_ok.mp h
    cases hmoved
    exact commitUpgradeOrderKey_writes hrow staged.content_updated hcommit

omit [OtsCodec] in
theorem publishUpgrade_writes {dir : DataDir} {staged : StagedUpgrade} (env : UpgradeEnv)
    {row : CommitmentMeta} (hrow : dir.store.getCommitment staged.row.baoRoot = some row)
    (hsame : content staged.row = content row) :
    OtsWrites dir.store (publishUpgrade dir staged env).2.store := by
  unfold publishUpgrade
  dsimp only
  split
  · exact .refl
  split
  · exact .refl
  split
  · exact .refl
  · rename_i store hback
    exact rollbackTimestampLmdb_writes hrow hsame hback

theorem applyUpgrade_writes {dir : DataDir} {staged : StagedUpgrade} (env : UpgradeEnv)
    (hrow : dir.store.getCommitment staged.baoRoot = some staged.row) :
    OtsWrites dir.store (applyUpgrade dir staged env).2.store := by
  unfold applyUpgrade
  split
  · split
    · exact .refl
    · rename_i moved hmove
      rw [recordUpgrade_store]
      exact moveOrderKey_writes hrow hmove
  split
  · exact .refl
  split
  · exact .refl
  dsimp only
  split
  · exact .refl
  rename_i moved hmove
  have hmoved := moveOrderKey_writes (by exact hrow) hmove
  change OtsWrites dir.store moved.store at hmoved
  obtain ⟨row', hrow', hsame⟩ := hmoved.exists_row hrow
  have hroot := StorageStore.baoRoot_of_getCommitment hrow
  have hpublish := hmoved.trans (publishUpgrade_writes env (hroot ▸ hrow') hsame.symm)
  rcases hrun : publishUpgrade moved staged env with ⟨result, dir'⟩
  rw [hrun] at hpublish
  cases result with
  | error err => exact hpublish
  | ok _ =>
    dsimp only
    rw [recordUpgrade_store]
    exact hpublish

variable [Digests]

theorem timestampCommitment_writes (dir : DataDir) (baoRootHex : String)
    (options : TimestampOptions) (env : TimestampEnv) :
    OtsWrites dir.store (timestampCommitment dir baoRootHex options env).2.store := by
  have hrun := timestampCommitment_run dir baoRootHex options env
  cases hout : timestampCommitment dir baoRootHex options env with
  | mk outcome dir' =>
  rw [hout] at hrun
  cases hrun with
  | rejected => exact .refl
  | repaired baoRoot row =>
    show OtsWrites dir.store (repairBrecciaFromMeta dir baoRootHex row env.breccia).2.store
    rw [repairBrecciaFromMeta_store]
  | written staged pending _ _ hrow =>
    have hwrites : OtsWrites ({ dir with pendingOts := pending } : DataDir).store _ :=
      finishTimestamp_writes env hrow
    exact hwrites

theorem upgradeCommitment_writes (dir : DataDir) (baoRootHex calendarUpgradeUrl : String)
    (env : UpgradeEnv) :
    OtsWrites dir.store (upgradeCommitment dir baoRootHex calendarUpgradeUrl env).2.store := by
  unfold upgradeCommitment
  split
  · exact .refl
  · rename_i staged hstage
    obtain ⟨baoRoot, -, hstage⟩ := bind_eq_ok.mp hstage
    obtain ⟨row, hrow, hstage⟩ := bind_eq_ok.mp hstage
    obtain ⟨proofPath, -, hstage⟩ := bind_eq_ok.mp hstage
    obtain ⟨currentProof, -, hstage⟩ := bind_eq_ok.mp hstage
    obtain ⟨proof, -, hstage⟩ := bind_eq_ok.mp hstage
    obtain ⟨_, -, hstage⟩ := bind_eq_ok.mp hstage
    obtain ⟨orderKey, -, hstage⟩ := bind_eq_ok.mp hstage
    cases hstage
    exact applyUpgrade_writes env (okOr_eq_ok.mp hrow)

end

/-! ### Fingerprints -/

/-- One write of the fingerprint of a filepack. -/
inductive FingerprintWrite (s : StorageStore) : StorageStore → Prop where
  | mk {row : CommitmentMeta} (fp : Option String) (hrow : s.getCommitment row.baoRoot = some row) :
      FingerprintWrite s (s.putCommitment { row with filepackFp := fp })

abbrev FingerprintWrites : StorageStore → StorageStore → Prop := ReflTransGen FingerprintWrite

theorem commitFilepackMetadata_writes {s t : StorageStore} {fingerprint : String}
    {entries : List FilepackEntry} {previousFps : List (Bytes32 × Option String)}
    (h : commitFilepackMetadata s fingerprint entries = .ok (previousFps, t)) : FingerprintWrites s t := by
  induction entries generalizing s previousFps with
  | nil =>
    cases h
    exact .refl
  | cons entry rest ih =>
    obtain ⟨baoRoot, -, h⟩ := bind_eq_ok.mp h
    obtain ⟨updated, hupdate, h⟩ := bind_eq_ok.mp h
    obtain ⟨⟨tail, t'⟩, htail, h⟩ := bind_eq_ok.mp h
    cases h
    unfold StorageStore.updateFilepackFp at hupdate
    split at hupdate
    · cases hupdate
    · rename_i row hrow
      cases hupdate
      rw [← StorageStore.baoRoot_of_getCommitment hrow] at hrow
      exact .head (.mk _ hrow) (ih htail)

theorem rollbackFilepackMetadata_writes (s : StorageStore)
    (previousFps : List (Bytes32 × Option String)) :
    FingerprintWrites s (rollbackFilepackMetadata s previousFps) := by
  induction previousFps generalizing s with
  | nil => exact .refl
  | cons previous rest ih =>
    unfold rollbackFilepackMetadata
    split
    · exact ih s
    · rename_i row hrow
      rw [← StorageStore.baoRoot_of_getCommitment hrow] at hrow
      exact .head (.mk _ hrow) (ih _)

theorem publishFilepack_writes (s : StorageStore) (env : FilepackEnv)
    (options : CreateFilepackOptions) (entries : List FilepackEntry) :
    FingerprintWrites s (publishFilepack s env options entries).2 := by
  unfold publishFilepack
  split
  · exact .refl
  split
  · exact .refl
  split
  · exact .refl
  rename_i previousFps committed hcommit
  have hcommitted := commitFilepackMetadata_writes hcommit
  have hback := hcommitted.trans (rollbackFilepackMetadata_writes committed previousFps)
  split
  · exact hback
  split
  · exact hback
  · exact hcommitted

/-! ### What the encode of a row leaves in it -/

/-- A row as its encode wrote it. -/
def asEncoded (row : CommitmentMeta) : CommitmentMeta :=
  { content row with filepackFp := none }

theorem OtsWrites.map_asEncoded {s t : StorageStore} (h : OtsWrites s t) (r : Bytes32) :
    (t.getCommitment r).map asEncoded = (s.getCommitment r).map asEncoded := by
  have hmap := congrArg (Option.map fun row : CommitmentMeta => { row with filepackFp := none })
    (h.map_content r)
  rwa [Option.map_map, Option.map_map] at hmap

theorem FingerprintWrites.map_asEncoded {s t : StorageStore} (h : FingerprintWrites s t)
    (r : Bytes32) : (t.getCommitment r).map asEncoded = (s.getCommitment r).map asEncoded := by
  induction h with
  | refl => rfl
  | @tail _ _ _ hlast ih =>
    rw [← ih]
    cases hlast with
    | @mk row fp hrow =>
      rw [StorageStore.getCommitment_putCommitment]
      split
      · rename_i hr
        subst hr
        rw [hrow]
        rfl
      · rfl

/-! ### Encodes and filepacks -/

section

variable [Carbonado]

/-- One write of any call. -/
inductive TableWrite (s : StorageStore) : StorageStore → Prop where
  | ots {t : StorageStore} (h : OtsWrite s t) : TableWrite s t
  | fingerprint {t : StorageStore} (h : FingerprintWrite s t) : TableWrite s t
  /-- A container gets a new row. -/
  | encode (baoRoot : Bytes32) {format : UInt8} (layout : Layout) (createdAt : UInt64)
      (hformat : format ≤ 15) : TableWrite s (s.putCommitment (.new baoRoot
        (DataDir.carbonadoRelativePath (Carbonado.encodeBaoHash baoRoot) format) format layout
        createdAt))

abbrev TableWrites : StorageStore → StorageStore → Prop := ReflTransGen TableWrite

theorem OtsWrites.tableWrites {s t : StorageStore} (h : OtsWrites s t) : TableWrites s t :=
  h.lift id fun _ _ => TableWrite.ots

theorem FingerprintWrites.tableWrites {s t : StorageStore} (h : FingerprintWrites s t) :
    TableWrites s t :=
  h.lift id fun _ _ => TableWrite.fingerprint

theorem publishEncoded_writes (dir : DataDir) (env : EncodeEnv) {options : EncodeOptions}
    (hformat : options.format ≤ 15) (plaintext encoded : Bytes) (baoRoot : Bytes32) :
    TableWrites dir.store (publishEncoded dir env options plaintext encoded baoRoot).2.store := by
  unfold publishEncoded
  dsimp only
  split
  · exact .refl
  split
  · exact .refl
  split
  · exact .refl
  split
  · exact .refl
  split
  · exact .refl
  split
  · exact .refl
  · exact .single (.encode baoRoot options.layout _ hformat)

theorem encodeFileWithStore_writes (dir : DataDir) (env : EncodeEnv) (options : EncodeOptions) :
    TableWrites dir.store (encodeFileWithStore dir env options).2.store := by
  unfold encodeFileWithStore
  split
  · exact .refl
  rename_i hformat
  split
  · exact .refl
  have hstore := masterKeyForFormat_store options.format dir env.keyFile options.masterKeyHex
  rcases hkey : masterKeyForFormat options.format dir env.keyFile options.masterKeyHex with
    ⟨keyResult, keyed⟩
  rw [hkey] at hstore
  rw [← hstore]
  cases keyResult with
  | error err => exact .refl
  | ok masterKey =>
    dsimp only
    split
    · exact .refl
    · exact publishEncoded_writes keyed env (UInt8.not_lt.mp hformat) _ _ _

theorem encodeEntries_writes (dir : DataDir) (sourceDir : String) (options : CreateFilepackOptions)
    (files : List SourceFile) :
    TableWrites dir.store (encodeEntries dir sourceDir options files).2.store := by
  induction files generalizing dir with
  | nil => exact .refl
  | cons file rest ih =>
    have hfile : TableWrites dir.store (Storage.encodeEntry dir sourceDir options file).2.store := by
      unfold Storage.encodeEntry
      split
      · exact .refl
      rename_i content _
      have hencode := encodeFileWithStore_writes dir file.env (options.encodeOptions content)
      rcases hrun : encodeFileWithStore dir file.env (options.encodeOptions content) with
        ⟨result, dir'⟩
      rw [hrun] at hencode
      cases result <;> exact hencode
    unfold encodeEntries
    rcases hrun : Storage.encodeEntry dir sourceDir options file with ⟨result, dir'⟩
    rw [hrun] at hfile
    cases result with
    | error err => exact hfile
    | ok entry =>
      have hrest := hfile.trans (ih dir')
      dsimp only
      rcases hentries : encodeEntries dir' sourceDir options rest with ⟨result, dir''⟩
      rw [hentries] at hrest
      cases result <;> exact hrest

theorem createFilepack_writes (dir : DataDir) (env : FilepackEnv)
    (options : CreateFilepackOptions) :
    TableWrites dir.store (createFilepack dir env options).2.store := by
  unfold createFilepack
  split
  · exact .refl
  split
  · exact .refl
  rename_i files _
  split
  · exact .refl
  have hentries := encodeEntries_writes dir env.sourceDir options (sortFiles files)
  rcases hrun : encodeEntries dir env.sourceDir options (sortFiles files) with ⟨result, dir'⟩
  rw [hrun] at hentries
  cases result with
  | error err => exact hentries
  | ok entries =>
    exact hentries.trans (publishFilepack_writes dir'.store env options entries).tableWrites

/-! ### Invariants -/

variable [Digests] [OtsCodec]

/-- Every call is a sequence of such writes. -/
theorem StoreCall.exec_writes (dir : DataDir) (call : StoreCall) :
    TableWrites dir.store (call.exec dir).store := by
  cases call with
  | encodeFile env options => exact encodeFileWithStore_writes dir env options
  | createFilepack env options => exact createFilepack_writes dir env options
  | timestamp baoRootHex options env =>
    exact (timestampCommitment_writes dir baoRootHex options env).tableWrites
  | upgrade baoRootHex calendarUpgradeUrl env =>
    exact (upgradeCommitment_writes dir baoRootHex calendarUpgradeUrl env).tableWrites

/-- What every write keeps holds in every state of a run. -/
theorem always_of_tableWrite {P : StorageStore → Prop}
    (hwrite : ∀ s t, TableWrite s t → P s → P t) {dir : DataDir} (hP : P dir.store)
    (calls : List StoreCall) : Always StoreCall.exec (fun s => P s.store) dir calls := by
  refine always_of_keeps (fun s call _ hs => ?_) hP
  exact (StoreCall.exec_writes s call).rec hs fun _ hlast ih => hwrite _ _ hlast ih

omit [Digests] [OtsCodec] in
/-- A write leaves a row for every root that has one. -/
theorem TableWrite.isSome {s t : StorageStore} (h : TableWrite s t) {r : Bytes32}
    (hr : (s.getCommitment r).isSome) : (t.getCommitment r).isSome := by
  have hput : ∀ row : CommitmentMeta, ((s.putCommitment row).getCommitment r).isSome := by
    intro row
    rw [StorageStore.getCommitment_putCommitment]
    split
    · rfl
    · exact hr
  cases h with
  | ots h =>
    cases h with
    | stamp => exact hput _
    | order => exact hr
    | unorder => exact hr
  | fingerprint h =>
    cases h with
    | mk => exact hput _
  | encode => exact hput _

theorem StoreCall.exec_isSome (dir : DataDir) (call : StoreCall) {r : Bytes32}
    (hr : (dir.store.getCommitment r).isSome) : ((call.exec dir).store.getCommitment r).isSome :=
  (StoreCall.exec_writes dir call).rec hr fun _ hlast ih => hlast.isSome ih

end

end Lord.Commit
