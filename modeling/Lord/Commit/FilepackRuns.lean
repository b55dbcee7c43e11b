import Lord.Commit.TableWrites
import Lord.Storage.CaseyCodec
import Lord.Storage.DecodeRoundTrip
import Lord.Storage.FilepackUndo
import Lord.Storage.Fingerprint

/-! The verification of a filepack behind a run.  Timestamps, upgrades and other filepacks keep it valid;
an encode of one of its files resets the row of that file, and no such call makes it valid again. -/

namespace Lord.Commit

open Storage Ots Runs

/-! ### Rows that a call leaves -/

/-- The row of a root has this format. -/
def HasFormat (s : StorageStore) (format : UInt8) (r : Bytes32) : Prop :=
  ∃ row, s.getCommitment r = some row ∧ row.format = format

/-- Between two stores, rows are replaced at these roots only, by new rows of a format. -/
structure Replaces (s t : StorageStore) (format : UInt8) (roots : Bytes32 → Prop) : Prop where
  keep : ∀ r, ¬roots r → t.getCommitment r = s.getCommitment r
  replaced : ∀ r, roots r → HasFormat t format r ∧ t.filepackFpOf r = none

theorem Replaces.refl (s : StorageStore) (format : UInt8) : Replaces s s format fun _ => False :=
  ⟨fun _ _ => rfl, fun _ h => h.elim⟩

theorem Replaces.trans {s t u : StorageStore} {format : UInt8} {first second : Bytes32 → Prop}
    (hst : Replaces s t format first) (htu : Replaces t u format second) :
    Replaces s u format fun r => first r ∨ second r := by
  refine ⟨fun r hr => ?_, fun r hr => ?_⟩
  · rw [htu.keep r fun h => hr (.inr h), hst.keep r fun h => hr (.inl h)]
  · by_cases hsecond : second r
    · exact htu.replaced r hsecond
    · rw [HasFormat, StorageStore.filepackFpOf, htu.keep r hsecond]
      exact hst.replaced r (hr.resolve_right hsecond)

theorem Replaces.congr {s t : StorageStore} {format : UInt8} {roots roots' : Bytes32 → Prop}
    (h : Replaces s t format roots) (hiff : ∀ r, roots r ↔ roots' r) :
    Replaces s t format roots' := by
  obtain rfl : roots = roots' := funext fun r => propext (hiff r)
  exact h

section

variable [Carbonado]

/-- What an encode that succeeds puts into the store. -/
theorem encodeFileWithStore_ok {dir dir' : DataDir} {env : EncodeEnv} {options : EncodeOptions}
    {result : EncodeResult} (h : encodeFileWithStore dir env options = (.ok result, dir')) :
    result.format = options.format ∧ ∃ baoRoot path createdAt,
      result.baoRoot = Carbonado.encodeBaoHash baoRoot ∧ dir'.store = dir.store.putCommitment
        (.new baoRoot path options.format options.layout createdAt) := by
  unfold encodeFileWithStore at h
  split at h
  · cases h
  split at h
  · cases h
  have hstore := masterKeyForFormat_store options.format dir env.keyFile options.masterKeyHex
  rcases hkey : masterKeyForFormat options.format dir env.keyFile options.masterKeyHex with
    ⟨keyResult, keyed⟩
  rw [hkey] at h hstore
  rw [← hstore]
  cases keyResult with
  | error err => cases h
  | ok masterKey =>
    dsimp only at h
    split at h
    · cases h
    unfold publishEncoded at h
    dsimp only at h
    split at h
    · cases h
    split at h
    · cases h
    split at h
    · cases h
    split at h
    · cases h
    split at h
    · cases h
    split at h
    · cases h
    obtain ⟨hresult, rfl⟩ := Prod.mk.inj h
    cases hresult
    exact ⟨rfl, _, _, _, rfl, rfl⟩

variable (hhex : ∀ root, Carbonado.encodeBaoHash root = Hex.encode root.val)

include hhex in
/-- An encode writes a new row for the root that it encodes to, and no other. -/
theorem encodeFileWithStore_cases (dir : DataDir) (env : EncodeEnv) (options : EncodeOptions) :
    (∃ baoRoot result path createdAt, (∀ r, Encodes dir env options r ↔ baoRoot = r) ∧
        (encodeFileWithStore dir env options).1 = .ok result ∧
        result.baoRoot = Hex.encode baoRoot.val ∧ result.format = options.format ∧
        (encodeFileWithStore dir env options).2.store = dir.store.putCommitment
          (.new baoRoot path options.format options.layout createdAt)) ∨
      ((∀ r, ¬Encodes dir env options r) ∧
        (∃ err, (encodeFileWithStore dir env options).1 = .error err) ∧
        (encodeFileWithStore dir env options).2.store = dir.store) := by
  rcases encodeFileWithStore_spec dir env options with
    ⟨baoRoot, result, row, hiff, -, -, hok, hroot, -⟩ | hfails
  · refine .inl ⟨baoRoot, result, ?_⟩
    obtain ⟨hformat, baoRoot', path, createdAt, hroot', hstore⟩ :=
      encodeFileWithStore_ok (Prod.ext hok rfl)
    rw [hroot, hhex, hhex] at hroot'
    obtain rfl : baoRoot = baoRoot' := Subtype.ext (Hex.encode_injective hroot')
    exact ⟨path, createdAt, hiff, hok, by rw [hroot, hhex], hformat, hstore⟩
  · exact .inr hfails

include hhex in
theorem encodeFileWithStore_replaces (dir : DataDir) (env : EncodeEnv) (options : EncodeOptions) :
    Replaces dir.store (encodeFileWithStore dir env options).2.store options.format
      (Encodes dir env options) := by
  rcases encodeFileWithStore_cases hhex dir env options with
    ⟨baoRoot, result, path, createdAt, hiff, -, -, -, hstore⟩ | ⟨hnone, -, hstore⟩
  · rw [hstore]
    refine ⟨fun r hr => ?_, fun r hr => ?_⟩
    · rw [StorageStore.getCommitment_putCommitment, if_neg]
      exact fun heq => hr ((hiff r).mpr heq)
    · obtain rfl := (hiff r).mp hr
      have hrow := StorageStore.getCommitment_putCommitment_self dir.store
        (.new baoRoot path options.format options.layout createdAt)
      refine ⟨⟨_, hrow, rfl⟩, ?_⟩
      have hfp := congrArg (fun found => found.bind CommitmentMeta.filepackFp) hrow
      exact hfp
  · rw [hstore]
    exact (Replaces.refl dir.store options.format).congr fun r => by simp [hnone r]

include hhex in
theorem encodeEntry_replaces (dir : DataDir) (sourceDir : String) (options : CreateFilepackOptions)
    (file : SourceFile) :
    Replaces dir.store (Storage.encodeEntry dir sourceDir options file).2.store options.format
      fun r => ∃ content, file.content = .ok content ∧
        Encodes dir file.env (options.encodeOptions content) r := by
  unfold Storage.encodeEntry
  cases hcontent : file.content with
  | error err => exact (Replaces.refl dir.store options.format).congr fun r => by simp
  | ok content =>
    have hreplaces := encodeFileWithStore_replaces hhex dir file.env (options.encodeOptions content)
    simp only [Result.context, Except.ok.injEq, exists_eq_left']
    rcases hrun : encodeFileWithStore dir file.env (options.encodeOptions content) with
      ⟨result, dir'⟩
    rw [hrun] at hreplaces
    cases result <;> exact hreplaces

include hhex in
theorem encodeEntries_replaces (dir : DataDir) (sourceDir : String)
    (options : CreateFilepackOptions) (files : List SourceFile) :
    Replaces dir.store (Storage.encodeEntries dir sourceDir options files).2.store options.format
      (EntriesEncode dir sourceDir options files) := by
  induction files generalizing dir with
  | nil => exact .refl dir.store options.format
  | cons file rest ih =>
    have hfile := encodeEntry_replaces hhex dir sourceDir options file
    have hrest := ih (Storage.encodeEntry dir sourceDir options file).2
    rcases hrun : Storage.encodeEntry dir sourceDir options file with ⟨result, dir'⟩
    rw [hrun] at hfile hrest
    simp only [Storage.encodeEntries, EntriesEncode, hrun]
    cases result with
    | error err => exact hfile.congr fun r => by simp
    | ok entry =>
      have hboth : Replaces dir.store _ options.format
          (EntriesEncode dir sourceDir options (file :: rest)) :=
        (hfile.trans hrest).congr fun r => by simp [EntriesEncode, hrun]
      simp only [EntriesEncode, hrun] at hboth
      rcases hentries : Storage.encodeEntries dir' sourceDir options rest with ⟨result, dir''⟩
      rw [hentries] at hboth
      simp only [hentries]
      cases result <;> exact hboth

include hhex in
/-- The entries that the loop returns name roots that it encoded, with their format. -/
theorem encodeEntries_ok {dir dir' : DataDir} {sourceDir : String} {options : CreateFilepackOptions}
    {files : List SourceFile} {entries : List FilepackEntry}
    (h : Storage.encodeEntries dir sourceDir options files = (.ok entries, dir')) :
    ∀ entry ∈ entries, entry.format = options.format ∧ ∃ baoRoot,
      parseEntryRoot entry.baoRoot = .ok baoRoot ∧
        EntriesEncode dir sourceDir options files baoRoot := by
  induction files generalizing dir entries with
  | nil =>
    cases h
    simp
  | cons file rest ih =>
    unfold Storage.encodeEntries at h
    rcases hrun : Storage.encodeEntry dir sourceDir options file with ⟨result, dir₁⟩
    rw [hrun] at h
    cases result with
    | error err => cases h
    | ok first =>
      dsimp only at h
      rcases hentries : Storage.encodeEntries dir₁ sourceDir options rest with ⟨result, dir₂⟩
      rw [hentries] at h
      cases result with
      | error err => cases h
      | ok others =>
        cases h
        rintro entry hentry
        rcases List.mem_cons.mp hentry with rfl | hentry
        · unfold Storage.encodeEntry at hrun
          split at hrun
          · cases hrun
          rename_i content hcontent
          rw [Result.context_eq_ok] at hcontent
          rcases encodeFileWithStore_cases hhex dir file.env (options.encodeOptions content) with
            ⟨baoRoot, result, path, createdAt, hiff, hok, hroot, hformat, -⟩ | ⟨-, ⟨err, herr⟩, -⟩
          · rcases hencode : encodeFileWithStore dir file.env (options.encodeOptions content) with
              ⟨encoded, dir₃⟩
            rw [hencode] at hrun hok
            cases hok
            cases hrun
            refine ⟨hformat, baoRoot, ?_, .inl ⟨content, hcontent, (hiff baoRoot).mpr rfl⟩⟩
            dsimp only
            rw [hroot]
            simp [parseEntryRoot, baoRoot.property]
          · rcases hencode : encodeFileWithStore dir file.env (options.encodeOptions content) with
              ⟨encoded, dir₃⟩
            rw [hencode] at hrun herr
            cases herr
            cases hrun
        · obtain ⟨hformat, baoRoot, hparse, hencodes⟩ := ih hentries entry hentry
          refine ⟨hformat, baoRoot, hparse, .inr ⟨⟨first, by rw [hrun]⟩, ?_⟩⟩
          rw [hrun]
          exact hencodes

omit [Carbonado] in
theorem mem_entryRoots {entries : List FilepackEntry} {r : Bytes32} :
    r ∈ entryRoots entries ↔ ∃ entry ∈ entries, parseEntryRoot entry.baoRoot = .ok r := by
  induction entries with
  | nil => simp [entryRoots]
  | cons entry rest ih =>
    rw [entryRoots]
    split
    · rename_i baoRoot hparse
      simp [ih, hparse, eq_comm]
    · rename_i err herr
      simp [ih, herr]

omit [Carbonado] in
/-- The fingerprint is written into rows of the entries only, also when the writes are undone. -/
theorem publishFilepack_getCommitment (s : StorageStore) (env : FilepackEnv)
    (options : CreateFilepackOptions) {entries : List FilepackEntry} {r : Bytes32}
    (hr : r ∉ entryRoots entries) :
    (publishFilepack s env options entries).2.getCommitment r = s.getCommitment r := by
  unfold publishFilepack
  split
  · rfl
  split
  · rfl
  split
  · rfl
  rename_i fingerprint _ _ _ previousFps committed hcommit
  have hcommitted : committed.getCommitment r = s.getCommitment r := by
    rw [getCommitment_committed hcommit, if_neg hr]
  have hback : (rollbackFilepackMetadata committed previousFps).getCommitment r =
      s.getCommitment r := by
    rw [getCommitment_rollback, hcommitted]
    refine (Option.map_congr fun row hrow => ?_).trans Option.map_id'
    have hlast : lastRecorded row.baoRoot previousFps = none := by
      rw [StorageStore.baoRoot_of_getCommitment hrow, lastRecorded_committed hcommit,
        if_pos (List.count_eq_zero.mpr hr)]
    rw [restoredRow, hlast]
    rfl
  split
  · exact hback
  split
  · exact hback
  · exact hcommitted

include hhex in
/-- A filepack leaves the rows of the roots that it does not encode. -/
theorem createFilepack_getCommitment (dir : DataDir) (env : FilepackEnv)
    (options : CreateFilepackOptions) {r : Bytes32} (hr : ¬Packs dir env options r) :
    (Storage.createFilepack dir env options).2.store.getCommitment r =
      dir.store.getCommitment r := by
  unfold Storage.createFilepack
  split
  · rfl
  rename_i hdir
  split
  · rfl
  rename_i files hwalk
  split
  · rfl
  have hnone : ¬EntriesEncode dir env.sourceDir options (sortFiles files) r := fun hencodes =>
    hr ⟨by simpa using hdir, files, hwalk, hencodes⟩
  have hreplaces := encodeEntries_replaces hhex dir env.sourceDir options (sortFiles files)
  rcases hrun : Storage.encodeEntries dir env.sourceDir options (sortFiles files) with
    ⟨result, dir'⟩
  rw [hrun] at hreplaces
  cases result with
  | error err => exact hreplaces.keep r hnone
  | ok entries =>
    have hroots : r ∉ entryRoots entries := by
      intro hmem
      obtain ⟨entry, hentry, hparse⟩ := mem_entryRoots.mp hmem
      obtain ⟨-, baoRoot, hparse', hencodes⟩ := encodeEntries_ok hhex hrun entry hentry
      rw [hparse] at hparse'
      cases hparse'
      exact hnone hencodes
    exact (publishFilepack_getCommitment dir'.store env options hroots).trans
      (hreplaces.keep r hnone)

/-! ### The rows that a manifest is bound to -/

/-- The row of every entry has the format of the entry and the fingerprint. -/
def Bound (s : StorageStore) (manifest : FilepackManifest) : Prop :=
  ∀ entry ∈ manifest.entries, ∃ baoRoot row, parseEntryRoot entry.baoRoot = .ok baoRoot ∧
    s.getCommitment baoRoot = some row ∧ row.filepackFp = some manifest.fingerprint ∧
    row.format = entry.format

/-- The row of some entry has no fingerprint. -/
def Unbound (s : StorageStore) (manifest : FilepackManifest) : Prop :=
  ∃ r ∈ entryRoots manifest.entries, s.filepackFpOf r = none

omit [Carbonado] in
theorem Bound.not_unbound {s : StorageStore} {manifest : FilepackManifest}
    (h : Bound s manifest) : ¬Unbound s manifest := by
  rintro ⟨r, hr, hnone⟩
  obtain ⟨entry, hentry, hparse⟩ := mem_entryRoots.mp hr
  obtain ⟨baoRoot, row, hparse', hrow, hfp, -⟩ := h entry hentry
  rw [hparse] at hparse'
  cases hparse'
  rw [StorageStore.filepackFpOf, hrow, Option.bind_some, hfp] at hnone
  cases hnone

include hhex in
/-- A filepack that succeeds binds its entries. -/
theorem createFilepack_ok {dir dir' : DataDir} {env : FilepackEnv} {options : CreateFilepackOptions}
    {manifest : FilepackManifest}
    (h : Storage.createFilepack dir env options = (.ok manifest, dir')) :
    Bound dir'.store manifest ∧ env.fingerprint manifest.entries = .ok manifest.fingerprint := by
  unfold Storage.createFilepack at h
  split at h
  · cases h
  split at h
  · cases h
  rename_i files hwalk
  split at h
  · cases h
  have hreplaces := encodeEntries_replaces hhex dir env.sourceDir options (sortFiles files)
  rcases hrun : Storage.encodeEntries dir env.sourceDir options (sortFiles files) with
    ⟨result, dir₁⟩
  rw [hrun] at h hreplaces
  cases result with
  | error err => cases h
  | ok entries =>
    have hentries := encodeEntries_ok hhex hrun
    dsimp only at h
    unfold publishFilepack at h
    split at h
    · cases h
    rename_i fingerprint hfp
    split at h
    · cases h
    split at h
    · cases h
    rename_i previousFps committed hcommit
    split at h
    · cases h
    split at h
    · cases h
    cases h
    refine ⟨fun entry hentry => ?_, hfp⟩
    obtain ⟨hformat, baoRoot, hparse, hencodes⟩ := hentries entry hentry
    obtain ⟨⟨row, hrow, hrowFormat⟩, -⟩ := hreplaces.replaced baoRoot hencodes
    have hmem : baoRoot ∈ entryRoots entries := mem_entryRoots.mpr ⟨entry, hentry, hparse⟩
    refine ⟨baoRoot, { row with filepackFp := some fingerprint }, hparse, ?_, rfl,
      hrowFormat.trans hformat.symm⟩
    show committed.getCommitment baoRoot = _
    rw [getCommitment_committed hcommit, if_pos hmem, hrow]
    rfl

omit [Carbonado] in
/-- A row that keeps its content keeps its fingerprint. -/
theorem filepackFpOf_congr {s t : StorageStore} {r : Bytes32}
    (h : (t.getCommitment r).map content = (s.getCommitment r).map content) :
    t.filepackFpOf r = s.filepackFpOf r := by
  have hbind := congrArg (fun row => row.bind CommitmentMeta.filepackFp) h
  rw [Option.bind_map, Option.bind_map] at hbind
  exact hbind

/-! ### One call -/

section

variable [Digests] [OtsCodec]

include hhex in
/-- A call keeps the content of every row whose root it does not encode. -/
theorem StoreCall.exec_content (dir : DataDir) (call : StoreCall) {r : Bytes32}
    (hr : ¬call.Produces dir r) :
    ((call.exec dir).store.getCommitment r).map content =
      (dir.store.getCommitment r).map content := by
  cases call with
  | encodeFile env options =>
    exact congrArg _ ((encodeFileWithStore_replaces hhex dir env options).keep r hr)
  | createFilepack env options =>
    exact congrArg _ (createFilepack_getCommitment hhex dir env options hr)
  | timestamp baoRootHex options env =>
    exact (timestampCommitment_writes dir baoRootHex options env).map_content r
  | upgrade baoRootHex calendarUpgradeUrl env =>
    exact (upgradeCommitment_writes dir baoRootHex calendarUpgradeUrl env).map_content r

/-- The call packs no file whose root is an entry of the manifest. -/
def PacksNone (manifest : FilepackManifest) (dir : DataDir) (call : StoreCall) : Prop :=
  ∀ env options, call = .createFilepack env options →
    ∀ r ∈ entryRoots manifest.entries, ¬Packs dir env options r

/-- The call encodes no file whose root is an entry of the manifest. -/
def ProducesNone (manifest : FilepackManifest) (dir : DataDir) (call : StoreCall) : Prop :=
  ∀ r ∈ entryRoots manifest.entries, ¬call.Produces dir r

variable {manifest : FilepackManifest} {dir : DataDir} {call : StoreCall}

include hhex in
theorem Bound.exec (h : Bound dir.store manifest) (hnone : ProducesNone manifest dir call) :
    Bound (call.exec dir).store manifest := by
  intro entry hentry
  obtain ⟨baoRoot, row, hparse, hrow, hfp, hformat⟩ := h entry hentry
  have hmap := StoreCall.exec_content hhex dir call
    (hnone baoRoot (mem_entryRoots.mpr ⟨entry, hentry, hparse⟩))
  rw [hrow, Option.map_some, Option.map_eq_some_iff] at hmap
  obtain ⟨row', hrow', hsame⟩ := hmap
  refine ⟨baoRoot, row', hparse, hrow', ?_, ?_⟩
  · rw [← hfp]
    show (content row').filepackFp = (content row).filepackFp
    rw [hsame]
  · rw [← hformat]
    show (content row').format = (content row).format
    rw [hsame]

include hhex in
/-- An encode that is no filepack leaves the rows of its roots without a fingerprint. -/
theorem filepackFpOf_produced (hpacks : PacksNone manifest dir call) {r : Bytes32}
    (hr : r ∈ entryRoots manifest.entries) (hproduces : call.Produces dir r) :
    (call.exec dir).store.filepackFpOf r = none := by
  cases call with
  | encodeFile env options =>
    exact ((encodeFileWithStore_replaces hhex dir env options).replaced r hproduces).2
  | createFilepack env options => exact absurd hproduces (hpacks env options rfl r hr)
  | timestamp => exact hproduces.elim
  | upgrade => exact hproduces.elim

include hhex in
/-- Without a new filepack of its files, a manifest that is unbound stays so. -/
theorem Unbound.exec (h : Unbound dir.store manifest) (hpacks : PacksNone manifest dir call) :
    Unbound (call.exec dir).store manifest := by
  obtain ⟨r, hr, hnone⟩ := h
  refine ⟨r, hr, ?_⟩
  by_cases hproduces : call.Produces dir r
  · exact filepackFpOf_produced hhex hpacks hr hproduces
  · rw [filepackFpOf_congr (StoreCall.exec_content hhex dir call hproduces), hnone]

include hhex in
/-- Behind a run that packs none of its files again, a bound manifest is still bound exactly when no
call has encoded one of them. -/
theorem bound_iff_eachStep (h : Bound dir.store manifest) (calls : List StoreCall)
    (hpacks : EachStep StoreCall.exec (PacksNone manifest) dir calls) :
    Bound (run StoreCall.exec dir calls).store manifest ↔
      EachStep StoreCall.exec (ProducesNone manifest) dir calls := by
  induction calls generalizing dir with
  | nil => exact iff_of_true h eachStep_nil
  | cons call rest ih =>
    obtain ⟨hcall, hrest⟩ := eachStep_cons.mp hpacks
    rw [eachStep_cons]
    by_cases hnone : ProducesNone manifest dir call
    · rw [and_iff_right hnone]
      exact ih (h.exec hhex hnone) hrest
    · refine iff_of_false (fun hbound => ?_) fun hall => hnone hall.1
      have hunbound : Unbound (call.exec dir).store manifest := by
        simp only [ProducesNone, not_forall, not_not] at hnone
        obtain ⟨r, hr, hproduces⟩ := hnone
        exact ⟨r, hr, filepackFpOf_produced hhex hcall hr hproduces⟩
      have halways : Always StoreCall.exec (fun s => Unbound s.store manifest) (call.exec dir) rest :=
        always_of_eachStep (fun s c _ hs hc => hs.exec hhex hc) hunbound hrest
      exact hbound.not_unbound (halways rest List.prefix_rfl)

end

end

/-! ### Verification -/

theorem verifyEntry_eq_ok {s : StorageStore} {fingerprint : String} {entry : FilepackEntry} :
    verifyEntry s fingerprint entry = .ok () ↔ ∃ baoRoot row,
      parseEntryRoot entry.baoRoot = .ok baoRoot ∧ s.getCommitment baoRoot = some row ∧
        row.filepackFp = some fingerprint ∧ row.format = entry.format := by
  constructor
  · intro h
    obtain ⟨baoRoot, hparse, h⟩ := bind_eq_ok.mp h
    obtain ⟨row, hrow, h⟩ := bind_eq_ok.mp h
    refine ⟨baoRoot, row, hparse, okOr_eq_ok.mp hrow, ?_⟩
    split at h
    · cases h
    rename_i fp hfp
    split at h
    · cases h
    rename_i hsame
    split at h
    · cases h
    rename_i hformat
    exact ⟨hfp.trans (congrArg some (not_not.mp hsame)), not_not.mp hformat⟩
  · rintro ⟨baoRoot, row, hparse, hrow, hfp, hformat⟩
    refine bind_eq_ok.mpr ⟨baoRoot, hparse, bind_eq_ok.mpr ⟨row, okOr_eq_ok.mpr hrow, ?_⟩⟩
    simp [hfp, hformat]

theorem forM_eq_ok {α : Type} {f : α → Result Unit} {xs : List α} :
    xs.forM f = .ok () ↔ ∀ x ∈ xs, f x = .ok () := by
  induction xs with
  | nil => simp [pure, Except.pure]
  | cons x rest ih =>
    show (f x >>= fun _ => rest.forM f) = .ok () ↔ _
    rw [bind_eq_ok, List.forall_mem_cons, ← ih]
    constructor
    · rintro ⟨_, hfirst, hrest⟩
      exact ⟨hfirst, hrest⟩
    · rintro ⟨hfirst, hrest⟩
      exact ⟨(), hfirst, hrest⟩

section

variable [Blake3] [Bech32] [Minicbor Directory] [Minicbor Archive]
  [Minicbor (SortedMap String CarbonadoBindingCbor)] [ManifestJson]

/-- The files of the filepack hold the manifest in JSON. -/
structure HoldsJson (root : FilepackRoot) (manifest : FilepackManifest) : Prop where
  read : ∃ bytes, root.manifest = .ok bytes ∧ bytes.head? = some 0x7b ∧
    ManifestJson.fromSlice bytes = .ok manifest

/-- A JSON manifest with the fingerprint of its entries verifies exactly when it is bound. -/
theorem verifyFilepack_isOk_iff {root : FilepackRoot} {manifest : FilepackManifest}
    (hjson : HoldsJson root manifest)
    (hfp : fingerprintForEntries manifest.entries = manifest.fingerprint) (fuel : Nat)
    (s : StorageStore) :
    (verifyFilepack fuel root (.ok s) manifest.fingerprint ⟨false⟩).isOk ↔ Bound s manifest := by
  obtain ⟨bytes, hread, hbrace, hparse⟩ := hjson.read
  have hload : loadManifest fuel root manifest.fingerprint ⟨false⟩ = .ok manifest := by
    unfold loadManifest
    simp [hread, hbrace, hparse, hfp, ensureManifestFingerprint, Result.context, ok_bind]
  have hverify : verifyFilepack fuel root (.ok s) manifest.fingerprint ⟨false⟩ =
      manifest.entries.forM (verifyEntry s manifest.fingerprint) >>= fun _ =>
        .ok ⟨manifest.fingerprint, manifest.version, manifest.entries.length, true⟩ := by
    rw [verifyFilepack, hload]
    rfl
  have hbound : Bound s manifest ↔
      manifest.entries.forM (verifyEntry s manifest.fingerprint) = .ok () := by
    rw [forM_eq_ok]
    exact forall₂_congr fun entry _ => verifyEntry_eq_ok.symm
  rw [hverify, hbound]
  cases hentries : manifest.entries.forM (verifyEntry s manifest.fingerprint) with
  | error err => exact iff_of_false (by rintro ⟨⟩) (by rintro ⟨⟩)
  | ok _ => exact iff_of_true rfl rfl

variable [Carbonado] [Digests] [OtsCodec]

/-- A filepack in JSON verifies behind a run that packs none of its files again exactly when no call
of the run has encoded one of them; timestamps, upgrades and other filepacks keep it valid. -/
theorem filepack_verifies_iff (hhex : ∀ root, Carbonado.encodeBaoHash root = Hex.encode root.val)
    {dir dir' : DataDir} {env : FilepackEnv} {options : CreateFilepackOptions}
    {manifest : FilepackManifest} {root : FilepackRoot}
    (hfp : ∀ entries, env.fingerprint entries = .ok (fingerprintForEntries entries))
    (hcreate : Storage.createFilepack dir env options = (.ok manifest, dir'))
    (hjson : HoldsJson root manifest) (fuel : Nat) (calls : List StoreCall)
    (hpacks : EachStep StoreCall.exec (PacksNone manifest) dir' calls) :
    (verifyFilepack fuel root (.ok (run StoreCall.exec dir' calls).store) manifest.fingerprint
        ⟨false⟩).isOk ↔
      EachStep StoreCall.exec (ProducesNone manifest) dir' calls := by
  obtain ⟨hbound, hfingerprint⟩ := createFilepack_ok hhex hcreate
  rw [hfp] at hfingerprint
  rw [verifyFilepack_isOk_iff hjson (Except.ok.inj hfingerprint)]
  exact bound_iff_eachStep hhex hbound calls hpacks

end

/-! ### A filepack of one file -/

section

attribute [local instance] plainCodec CaseyCodec.directoryCodec CaseyCodec.archiveCodec
  CaseyCodec.sidecarCodec CaseyCodec.blake3 CaseyCodec.bech32m Format.sha256Digests
  Format.sha256Codec

def packedEntries : List FilepackEntry := [⟨"a", 8, Hex.encode (plainHeader 0).hash.val, 0⟩]

def packedManifest : FilepackManifest := ⟨1, fingerprintForEntries packedEntries, "files", packedEntries⟩

def packedJson : Bytes := Utf8.encode ("\x7b\"version\":1,\"fingerprint\":\"" ++
  packedManifest.fingerprint ++ "\",\"root\":\"files\",\"entries\":[\x7b\"path\":\"a\",\"size\":8," ++
  "\"bao_root\":\"" ++ Hex.encode (plainHeader 0).hash.val ++ "\",\"format\":0\x7d]\x7d")

/-- A parser that knows one document. -/
@[reducible]
def packedParser : ManifestJson where
  fromSlice bytes := if bytes = packedJson then .ok packedManifest else .error "expected value"

attribute [local instance] packedParser

def packedEnv : FilepackEnv where
  sourceDir := "files"
  isDir := true
  root := "files"
  walk := .ok [⟨"a", .ok (List.replicate 8 0), clearEnv⟩]
  fingerprint entries := .ok (fingerprintForEntries entries)
  writeManifest := .ok ()
  publishSidecar := .ok ()
  publishManifest := .ok ()

/-- The file is encoded once more on its own. -/
def repeatedEncode : StoreCall :=
  .encodeFile clearEnv ⟨0, .inboard, none, some (List.replicate 8 0)⟩

theorem filepack_verifies_example :
    let dir := (Storage.createFilepack emptyDir packedEnv ⟨0, .inboard, none, false⟩).2
    (verifyFilepack 0 ⟨"files", .ok packedJson, .error "unused"⟩
        (.ok (run StoreCall.exec dir [repeatedEncode]).store) packedManifest.fingerprint
        ⟨false⟩).isOk ↔
      EachStep StoreCall.exec (ProducesNone packedManifest) dir [repeatedEncode] := by
  intro dir
  have hcreate : Storage.createFilepack emptyDir packedEnv ⟨0, .inboard, none, false⟩ =
      (.ok packedManifest, dir) := Prod.ext rfl rfl
  have hbrace : packedJson.head? = some 0x7b := by
    rw [packedJson, String.append_assoc, Utf8.encode_append]
    rfl
  refine filepack_verifies_iff (fun _ => rfl) (fun _ => rfl) hcreate
    ⟨packedJson, rfl, hbrace, if_pos rfl⟩ 0 [repeatedEncode] ?_
  exact eachStep_cons.mpr ⟨by rintro _ _ ⟨⟩, eachStep_nil⟩

end

end Lord.Commit
