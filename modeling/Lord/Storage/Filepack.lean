import Lord.Storage.Encode

/-! Filepacks: every file of a directory is encoded, and a fingerprint of the entries is recorded in
the metadata of each. -/

namespace Lord.Storage

structure FilepackEntry where
  path : String
  size : UInt64
  baoRoot : String
  format : UInt8
  deriving Repr, DecidableEq

structure FilepackManifest where
  version : UInt32
  fingerprint : String
  root : String
  entries : List FilepackEntry
  deriving Repr, DecidableEq

/-- Options for creating a filepack manifest. -/
structure CreateFilepackOptions where
  format : UInt8
  layout : Layout
  masterKeyHex : Option String
  filepackCompat : Bool

/-- A file below the source directory: its path, its content and how its encode goes. -/
structure SourceFile where
  path : String
  content : Result Bytes
  env : EncodeEnv

/-- What the creation of a filepack takes from outside: the files that the walk finds, the
fingerprint of the entries and how the files of the manifest are written. -/
structure FilepackEnv where
  sourceDir : String
  isDir : Bool
  /-- The last component of the source directory. -/
  root : String
  walk : Result (List SourceFile)
  fingerprint : List FilepackEntry → Result String
  writeManifest : Result Unit
  publishSidecar : Result Unit
  publishManifest : Result Unit

def CreateFilepackOptions.encodeOptions (options : CreateFilepackOptions) (content : Bytes) :
    EncodeOptions where
  format := options.format
  layout := options.layout
  masterKeyHex := options.masterKeyHex
  plaintext := some content

section

variable [Carbonado]

/-- One round of the loop over the files. -/
def encodeEntry (dir : DataDir) (sourceDir : String) (options : CreateFilepackOptions)
    (file : SourceFile) : Result FilepackEntry × DataDir :=
  match file.content.context
      s!"failed to read `{sourceDir}/{file.path}` for filepack create" with
  | .error err => (.error err, dir)
  | .ok content =>
    match encodeFileWithStore dir file.env (options.encodeOptions content) with
    | (.error err, dir) => (.error err, dir)
    | (.ok result, dir) =>
      (.ok { path := file.path, size := UInt64.ofNat content.length, baoRoot := result.baoRoot,
             format := result.format }, dir)

/-- The loop over the files. -/
def encodeEntries (dir : DataDir) (sourceDir : String) (options : CreateFilepackOptions) :
    List SourceFile → Result (List FilepackEntry) × DataDir
  | [] => (.ok [], dir)
  | file :: rest =>
    match encodeEntry dir sourceDir options file with
    | (.error err, dir) => (.error err, dir)
    | (.ok entry, dir) =>
      match encodeEntries dir sourceDir options rest with
      | (.error err, dir) => (.error err, dir)
      | (.ok entries, dir) => (.ok (entry :: entries), dir)

end

/-- The bao root that an entry names. -/
def parseEntryRoot (hex : String) : Result Bytes32 :=
  match Hex.decode hex with
  | none => .error "invalid entry bao root"
  | some bytes =>
    if h : bytes.length = 32 then .ok ⟨bytes, h⟩ else .error "entry bao root must be 32 bytes"

/-- The transaction that records the fingerprint; the fingerprints before it are returned. -/
def commitFilepackMetadata (store : StorageStore) (fingerprint : String) :
    List FilepackEntry → Result (List (Bytes32 × Option String) × StorageStore)
  | [] => .ok ([], store)
  | entry :: rest => do
    let baoRoot ← parseEntryRoot entry.baoRoot
    let previous := (store.getCommitment baoRoot).bind CommitmentMeta.filepackFp
    let updated ← store.updateFilepackFp baoRoot fingerprint
    let tail ← commitFilepackMetadata updated fingerprint rest
    .ok ((baoRoot, previous) :: tail.1, tail.2)

def rollbackFilepackMetadata (store : StorageStore) :
    List (Bytes32 × Option String) → StorageStore
  | [] => store
  | (baoRoot, previousFp) :: rest =>
    match store.getCommitment baoRoot with
    | none => rollbackFilepackMetadata store rest
    | some row =>
      rollbackFilepackMetadata (store.putCommitment { row with filepackFp := previousFp }) rest

/-- The part of `create_filepack` behind the encoded entries. -/
def publishFilepack (store : StorageStore) (env : FilepackEnv) (options : CreateFilepackOptions)
    (entries : List FilepackEntry) : Result FilepackManifest × StorageStore :=
  match env.fingerprint entries with
  | .error err => (.error err, store)
  | .ok fingerprint =>
    match env.writeManifest with
    | .error err => (.error err, store)
    | .ok () =>
      match commitFilepackMetadata store fingerprint entries with
      | .error err => (.error err, store)
      | .ok (previousFps, committed) =>
        match if options.filepackCompat then
              env.publishSidecar.context "failed to publish sidecar" else .ok () with
        | .error err => (.error err, rollbackFilepackMetadata committed previousFps)
        | .ok () =>
          match env.publishManifest.context "failed to publish manifest" with
          | .error err => (.error err, rollbackFilepackMetadata committed previousFps)
          | .ok () =>
            (.ok { version := if options.filepackCompat then 2 else 1, fingerprint,
                   root := env.root, entries }, committed)

/-- The files in the order of their paths. -/
def sortFiles (files : List SourceFile) : List SourceFile :=
  files.insertionSort fun a b => a.path ≤ b.path

section

variable [Carbonado]

/-- Create a filepack manifest from a directory tree. -/
def createFilepack (dir : DataDir) (env : FilepackEnv) (options : CreateFilepackOptions) :
    Result FilepackManifest × DataDir :=
  if !env.isDir then
    (.error s!"`{env.sourceDir}` is not a directory", dir)
  else
    match env.walk with
    | .error err => (.error err, dir)
    | .ok files =>
      if files.isEmpty then
        (.error s!"directory `{env.sourceDir}` contains no regular files", dir)
      else
        match encodeEntries dir env.sourceDir options (sortFiles files) with
        | (.error err, dir) => (.error err, dir)
        | (.ok entries, dir) =>
          let published := publishFilepack dir.store env options entries
          (published.1, { dir with store := published.2 })

/-! ### What a filepack writes -/

/-- Some file of the list encodes to this root, and the files before it encode. -/
def EntriesEncode (dir : DataDir) (sourceDir : String) (options : CreateFilepackOptions) :
    List SourceFile → Bytes32 → Prop
  | [], _ => False
  | file :: rest, baoRoot =>
    (∃ content, file.content = .ok content ∧
      Encodes dir file.env (options.encodeOptions content) baoRoot) ∨
    ((∃ entry, (encodeEntry dir sourceDir options file).1 = .ok entry) ∧
      EntriesEncode (encodeEntry dir sourceDir options file).2 sourceDir options rest baoRoot)

/-- The call encodes some file of the directory to this root. -/
def Packs (dir : DataDir) (env : FilepackEnv) (options : CreateFilepackOptions)
    (baoRoot : Bytes32) : Prop :=
  env.isDir = true ∧ ∃ files, env.walk = .ok files ∧
    EntriesEncode dir env.sourceDir options (sortFiles files) baoRoot

theorem encodeEntry_resets (dir : DataDir) (sourceDir : String) (options : CreateFilepackOptions)
    (file : SourceFile) :
    dir.store.Resets (encodeEntry dir sourceDir options file).2.store fun baoRoot =>
      ∃ content, file.content = .ok content ∧
        Encodes dir file.env (options.encodeOptions content) baoRoot := by
  unfold encodeEntry
  cases hcontent : file.content with
  | error err =>
    exact (StorageStore.Resets.refl dir.store).congr fun r => by simp
  | ok content =>
    have hresets := encodeFileWithStore_resets dir file.env (options.encodeOptions content)
    simp only [Result.context, Except.ok.injEq, exists_eq_left']
    rcases hrun : encodeFileWithStore dir file.env (options.encodeOptions content) with ⟨result, dir'⟩
    rw [hrun] at hresets
    cases result <;> exact hresets

theorem encodeEntries_resets (dir : DataDir) (sourceDir : String)
    (options : CreateFilepackOptions) (files : List SourceFile) :
    dir.store.Resets (encodeEntries dir sourceDir options files).2.store
      (EntriesEncode dir sourceDir options files) := by
  induction files generalizing dir with
  | nil => exact StorageStore.Resets.refl dir.store
  | cons file rest ih =>
    have hfile := encodeEntry_resets dir sourceDir options file
    have hrest := ih (encodeEntry dir sourceDir options file).2
    rcases hrun : encodeEntry dir sourceDir options file with ⟨result, dir'⟩
    rw [hrun] at hfile hrest
    simp only [encodeEntries, EntriesEncode, hrun]
    cases result with
    | error err => exact hfile.congr fun r => by simp
    | ok entry =>
      have hboth : dir.store.Resets _ (EntriesEncode dir sourceDir options (file :: rest)) :=
        (hfile.trans hrest).congr fun r => by simp [EntriesEncode, hrun]
      simp only [EntriesEncode, hrun] at hboth
      rcases hentries : encodeEntries dir' sourceDir options rest with ⟨result, dir''⟩
      rw [hentries] at hboth
      simp only [hentries]
      cases result <;> exact hboth

end

theorem resets_filepackFp {s : StorageStore} {baoRoot : Bytes32} {row : CommitmentMeta}
    (fp : Option String) (h : s.getCommitment baoRoot = some row) :
    s.Resets (s.putCommitment { row with filepackFp := fp }) fun _ => False := by
  refine ⟨fun _ => rfl, fun _ h => h.elim, fun r _ => ?_⟩
  rw [StorageStore.getCommitment_putCommitment]
  split
  · rename_i hr
    have hrow := StorageStore.baoRoot_of_getCommitment h
    dsimp only at hr
    rw [← hr, hrow, h]
    rfl
  · rfl

theorem commitFilepackMetadata_resets {s t : StorageStore} {fingerprint : String}
    {entries : List FilepackEntry} {previousFps : List (Bytes32 × Option String)}
    (h : commitFilepackMetadata s fingerprint entries = .ok (previousFps, t)) :
    s.Resets t fun _ => False := by
  induction entries generalizing s previousFps with
  | nil =>
    cases h
    exact StorageStore.Resets.refl _
  | cons entry rest ih =>
    obtain ⟨baoRoot, -, h⟩ := bind_eq_ok.mp h
    obtain ⟨updated, hupdate, h⟩ := bind_eq_ok.mp h
    obtain ⟨⟨tail, t'⟩, htail, h⟩ := bind_eq_ok.mp h
    cases h
    unfold StorageStore.updateFilepackFp at hupdate
    split at hupdate
    · cases hupdate
    · rename_i row hrow
      cases hupdate
      exact ((resets_filepackFp _ hrow).trans (ih htail)).congr fun r => by simp

theorem rollbackFilepackMetadata_resets (s : StorageStore)
    (previousFps : List (Bytes32 × Option String)) :
    s.Resets (rollbackFilepackMetadata s previousFps) fun _ => False := by
  induction previousFps generalizing s with
  | nil => exact StorageStore.Resets.refl s
  | cons previous rest ih =>
    obtain ⟨baoRoot, fp⟩ := previous
    unfold rollbackFilepackMetadata
    split
    · exact ih s
    · rename_i row hrow
      exact ((resets_filepackFp fp hrow).trans (ih _)).congr fun r => by simp

/-- The fingerprint leaves the OTS state of every row. -/
theorem publishFilepack_resets (s : StorageStore) (env : FilepackEnv)
    (options : CreateFilepackOptions) (entries : List FilepackEntry) :
    s.Resets (publishFilepack s env options entries).2 fun _ => False := by
  unfold publishFilepack
  split
  · exact StorageStore.Resets.refl s
  split
  · exact StorageStore.Resets.refl s
  split
  · exact StorageStore.Resets.refl s
  rename_i previousFps committed hcommit
  have hcommitted := commitFilepackMetadata_resets hcommit
  have hback : s.Resets (rollbackFilepackMetadata committed previousFps) fun _ => False :=
    (hcommitted.trans (rollbackFilepackMetadata_resets committed previousFps)).congr
      fun r => by simp
  split
  · exact hback
  split
  · exact hback
  · exact hcommitted

/-- A filepack resets the OTS state of the roots that its files encode to, and changes no other
row. -/
theorem createFilepack_resets [Carbonado] (dir : DataDir) (env : FilepackEnv)
    (options : CreateFilepackOptions) :
    dir.store.Resets (createFilepack dir env options).2.store (Packs dir env options) := by
  unfold createFilepack Packs
  cases hdir : env.isDir with
  | false => exact (StorageStore.Resets.refl dir.store).congr fun r => by simp
  | true =>
    cases hwalk : env.walk with
    | error err => exact (StorageStore.Resets.refl dir.store).congr fun r => by simp
    | ok files =>
      simp only [Bool.not_true, Bool.false_eq_true, if_false, true_and, Except.ok.injEq,
        exists_eq_left']
      cases files with
      | nil => exact StorageStore.Resets.refl dir.store
      | cons file rest =>
        have hentries := encodeEntries_resets dir env.sourceDir options (sortFiles (file :: rest))
        simp only [List.isEmpty_cons, Bool.false_eq_true, if_false]
        rcases hrun : encodeEntries dir env.sourceDir options (sortFiles (file :: rest)) with
          ⟨result, dir'⟩
        rw [hrun] at hentries
        cases result with
        | error err => exact hentries
        | ok entries =>
          exact (hentries.trans (publishFilepack_resets dir'.store env options entries)).congr
            fun r => by simp

end Lord.Storage
