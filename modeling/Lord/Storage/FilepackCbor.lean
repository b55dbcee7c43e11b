import Lord.Lib.Bech32
import Lord.Lib.SortedMap
import Mathlib.Data.String.Basic

/-! Casey filepack-compatible CBOR manifests: the package tree of the source files as an archive of
directory blobs under their hashes, and the Carbonado bindings in a sidecar beside it. -/

namespace Lord.Storage

/-- BLAKE3. -/
class Blake3 where
  hash : Bytes → Bytes32

/-- The derived CBOR encoding of a type. -/
class Minicbor (α : Type) where
  toVec : α → Result Bytes
  decode : Bytes → Result α

/-- Bech32m over five-bit digits. -/
class Bech32 where
  bytesToFes : Bytes → List (Fin 32)
  encode : String → List (Fin 32) → String

instance linearOrderUInt8 : LinearOrder UInt8 where
  le_refl := UInt8.le_refl
  le_trans _ _ _ := UInt8.le_trans
  le_antisymm _ _ := UInt8.le_antisymm
  le_total := UInt8.le_total
  lt_iff_le_not_ge a b := by
    rw [UInt8.lt_iff_toNat_lt, UInt8.le_iff_toNat_le, UInt8.le_iff_toNat_le]
    omega
  toDecidableLE := inferInstance

def packageComponent : String := "package"

def signaturesComponent : String := "signatures"

/-- Per-file Carbonado binding stored in the Lord sidecar. -/
structure CarbonadoBinding where
  baoRoot : String
  format : UInt8
  carbonadoPath : String
  deriving Repr, DecidableEq

/-- Source file entry for the Casey `package` tree. -/
structure SourceFileEntry where
  hash : Bytes32
  size : UInt64
  deriving Repr, DecidableEq

/-- Encoded stock Casey manifest bytes and fingerprint. -/
structure CompatManifest where
  cbor : Bytes
  fingerprint : String
  sidecar : Bytes
  deriving Repr, DecidableEq

/-- Package file entries extracted from a verified Casey archive. -/
structure CaseyPackageFile where
  path : String
  hash : Bytes32
  size : UInt64
  deriving Repr, DecidableEq

inductive EntryType where
  | file
  | directory
  deriving Repr, DecidableEq

inductive Version where
  | zero
  deriving Repr, DecidableEq

structure Entry where
  ty : EntryType
  hash : Bytes32
  size : UInt64
  deriving Repr, DecidableEq

structure Directory where
  version : Version
  entries : SortedMap String Entry

structure Archive where
  version : Version
  root : Bytes32
  files : SortedMap Bytes32 Bytes

structure CarbonadoBindingCbor where
  baoRoot : String
  format : UInt8
  carbonadoPath : String
  deriving Repr, DecidableEq

/-- An entry of a package tree; the entries of a directory are in the order of their names. -/
inductive PackageTreeEntry where
  | directory (tree : List (String × PackageTreeEntry))
  | file (file : SourceFileEntry)

abbrev PackageTree := List (String × PackageTreeEntry)

namespace PackageTree

def get (tree : PackageTree) (name : String) : Option PackageTreeEntry :=
  (tree.find? fun entry => entry.1 = name).map Prod.snd

def put (tree : PackageTree) (name : String) (entry : PackageTreeEntry) : PackageTree :=
  tree.filter (·.1 < name) ++ (name, entry) :: tree.filter (name < ·.1)

/-- The loop over the components of a path. -/
def insertComponents (path : String) (file : SourceFileEntry) :
    List String → PackageTree → Result PackageTree
  | [], tree => .ok tree
  | [component], tree =>
    if (get tree component).isSome then
      .error s!"duplicate filepack path `{path}`"
    else
      .ok (put tree component (.file file))
  | component :: rest, tree =>
    match get tree component with
    | some (.file _) =>
      .error s!"path component `{component}` in `{path}` already contains a file"
    | some (.directory directory) => do
      let directory ← insertComponents path file rest directory
      .ok (put tree component (.directory directory))
    | none => do
      let directory ← insertComponents path file rest []
      .ok (put tree component (.directory directory))

/-- `path.split('/')`. -/
def components (path : String) : List String :=
  (path.toList.splitOn '/').map String.ofList

def insertFile (tree : PackageTree) (path : String) (file : SourceFileEntry) :
    Result PackageTree :=
  insertComponents path file (components path) tree

/-- The tree of the source files. -/
def ofFiles (sourceFiles : SortedMap String SourceFileEntry) : Result PackageTree :=
  sourceFiles.entries.foldlM (fun tree file => insertFile tree file.1 file.2) []

end PackageTree

/-! ### The archive of a package tree -/

section

variable [Blake3]

/-- `ArchiveBuilder`: the blobs under their hashes. -/
abbrev ArchiveBuilder := SortedMap Bytes32 Bytes

/-- The entry of a blob, and the builder with it. -/
def ArchiveBuilder.entry (files : ArchiveBuilder) (ty : EntryType) (content : Bytes) :
    Entry × ArchiveBuilder :=
  let hash := Blake3.hash content
  (⟨ty, hash, UInt64.ofNat content.length⟩, files.insert hash content)

variable [Minicbor Directory]

mutual

/-- The entry of an entry of a package tree; a directory becomes a blob behind those below it. -/
def ArchiveBuilder.encodeEntry (files : ArchiveBuilder) :
    PackageTreeEntry → Result (Entry × ArchiveBuilder)
  | .file file => .ok (⟨.file, file.hash, file.size⟩, files)
  | .directory tree => do
    let encoded ← ArchiveBuilder.encodeEntries files .empty tree
    let content ← (Minicbor.toVec (Directory.mk .zero encoded.1)).context "encode directory cbor"
    .ok (ArchiveBuilder.entry encoded.2 .directory content)

/-- The entries of a directory, collected by their names. -/
def ArchiveBuilder.encodeEntries (files : ArchiveBuilder) (collected : SortedMap String Entry) :
    List (String × PackageTreeEntry) → Result (SortedMap String Entry × ArchiveBuilder)
  | [] => .ok (collected, files)
  | (name, entry) :: rest => do
    let encoded ← ArchiveBuilder.encodeEntry files entry
    ArchiveBuilder.encodeEntries encoded.2 (collected.insert name encoded.1) rest

end

/-- `ArchiveBuilder::directory`. -/
def ArchiveBuilder.directory (files : ArchiveBuilder) (tree : PackageTree) :
    Result (Entry × ArchiveBuilder) :=
  ArchiveBuilder.encodeEntry files (.directory tree)

def ArchiveBuilder.buildPackage (files : ArchiveBuilder) (package : Entry)
    (signatures : List Entry) : Result Archive := do
  let rootEntries := SortedMap.empty.insert packageComponent package
  let signaturesDirectory : Directory :=
    ⟨.zero, signatures.zipIdx.foldl (fun entries entry =>
      entries.insert (toString entry.2) entry.1) .empty⟩
  let content ← (Minicbor.toVec signaturesDirectory).context "encode signatures directory cbor"
  let (signaturesEntry, files) := ArchiveBuilder.entry files .directory content
  let rootDirectory : Directory := ⟨.zero, rootEntries.insert signaturesComponent signaturesEntry⟩
  let content ← (Minicbor.toVec rootDirectory).context "encode root directory cbor"
  let (rootEntry, files) := ArchiveBuilder.entry files .directory content
  .ok ⟨.zero, rootEntry.hash, files⟩

end

/-! ### The sidecar -/

section

variable [Minicbor (SortedMap String CarbonadoBindingCbor)]

/-- Encode Carbonado bindings as CBOR map `path -> { bao_root, format, carbonado_path }`. -/
def encodeCarbonadoSidecar (bindings : SortedMap String CarbonadoBinding) : Result Bytes :=
  let cborBindings : SortedMap String CarbonadoBindingCbor :=
    bindings.mapValues fun binding => ⟨binding.baoRoot, binding.format, binding.carbonadoPath⟩
  (Minicbor.toVec cborBindings).context "encode carbonado sidecar"

/-- Decode a `lord.carbonado.cbor` sidecar payload. -/
def decodeCarbonadoSidecar (bytes : Bytes) : Result (SortedMap String CarbonadoBinding) := do
  let decoded : SortedMap String CarbonadoBindingCbor ←
    (Minicbor.decode bytes).context "decode carbonado sidecar"
  .ok (decoded.mapValues fun binding => ⟨binding.baoRoot, binding.format, binding.carbonadoPath⟩)

end

/-! ### Packing -/

section

variable [Blake3] [Bech32] [Minicbor Directory] [Minicbor Archive]

def bech32Fingerprint (hash : Bytes32) : String :=
  -- `Fe32::A`
  Bech32.encode "package" (29 :: Bech32.bytesToFes hash.val)

def fingerprintForArchive (archive : Archive) : Result String := do
  let root ← okOr (archive.files.get archive.root) "archive root missing"
  let rootDirectory : Directory ← (Minicbor.decode root).context "decode archive root directory"
  let package ← okOr (rootDirectory.entries.get packageComponent)
    "package entry missing from archive root"
  .ok (bech32Fingerprint package.hash)

/-- Build a stock Casey-compatible CBOR manifest and separate Carbonado sidecar bytes. -/
def packCompatManifest [Minicbor (SortedMap String CarbonadoBindingCbor)]
    (sourceFiles : SortedMap String SourceFileEntry)
    (bindings : SortedMap String CarbonadoBinding) : Result CompatManifest := do
  let sidecar ← encodeCarbonadoSidecar bindings
  let package ← PackageTree.ofFiles sourceFiles
  let (packageEntry, files) ← ArchiveBuilder.directory .empty package
  let archive ← ArchiveBuilder.buildPackage files packageEntry []
  let fingerprint ← fingerprintForArchive archive
  let cbor ← (Minicbor.toVec archive).context "encode filepack archive"
  .ok ⟨cbor, fingerprint, sidecar⟩

/-- Derive the Casey `package1…` fingerprint from archive bytes. -/
def caseyArchiveFingerprint (cbor : Bytes) : Result String := do
  let archive : Archive ← (Minicbor.decode cbor).context "decode filepack archive"
  fingerprintForArchive archive

/-! ### Verification -/

/-- One round of the loop over the entries of a directory; a directory is walked by `absorb`. -/
def absorbEntry (archive : Archive) (absorb : List Bytes32 → Bytes32 → Result (List Bytes32))
    (loose : List Bytes32) (entry : Entry) : Result (List Bytes32) :=
  match entry.ty with
  | .file =>
    .ok (if (archive.files.get entry.hash).isSome then loose.filter (· ≠ entry.hash) else loose)
  | .directory => absorb loose entry.hash

/-- The walk over the directories below a blob, each of whose hashes leaves the loose ones; `fuel`
bounds its depth. -/
def absorbReferencedHashes (archive : Archive) :
    Nat → List Bytes32 → Bytes32 → Result (List Bytes32)
  | 0, _, _ => .error "stack overflow"
  | fuel + 1, loose, hash =>
    let loose := loose.filter (· ≠ hash)
    match archive.files.get hash with
    | none => .ok loose
    | some content => do
      let directory : Directory ← (Minicbor.decode content).context "decode archive directory"
      directory.entries.values.foldlM
        (absorbEntry archive (absorbReferencedHashes archive fuel)) loose

def childPath (parent name : String) : String :=
  if parent.isEmpty then name else s!"{parent}/{name}"

/-- One round of the loop over the entries of a directory; those below one come from `collect`. -/
def collectEntry (collect : Bytes32 → String → Result (List CaseyPackageFile)) (parent : String)
    (entry : String × Entry) : Result (List CaseyPackageFile) :=
  match entry.2.ty with
  | .file => .ok [⟨childPath parent entry.1, entry.2.hash, entry.2.size⟩]
  | .directory => collect entry.2.hash (childPath parent entry.1)

/-- The files below a package directory, under their paths; `fuel` bounds the depth. -/
def collectPackageFiles (archive : Archive) : Nat → Bytes32 → String → Result (List CaseyPackageFile)
  | 0, _, _ => .error "stack overflow"
  | fuel + 1, hash, parent => do
    let content ← okOr (archive.files.get hash) "package directory blob missing"
    let directory : Directory ← (Minicbor.decode content).context "decode package directory"
    let files ← directory.entries.entries.mapM
      (collectEntry (collectPackageFiles archive fuel) parent)
    .ok files.flatten

/-- Verify a Casey archive has no loose files and return package file entries. -/
def verifyCaseyArchive (fuel : Nat) (cbor : Bytes) : Result (List CaseyPackageFile) := do
  let archive : Archive ← (Minicbor.decode cbor).context "decode filepack archive"
  if archive.files.entries.any fun file => Blake3.hash file.2 ≠ file.1 then
    .error "archive file hash mismatch"
  else
    let loose := archive.files.entries.map Prod.fst
    let root ← okOr (archive.files.get archive.root) "archive root missing"
    let rootDirectory : Directory ← (Minicbor.decode root).context "decode archive root directory"
    let loose ← absorbReferencedHashes archive fuel loose archive.root
    let package ← okOr (rootDirectory.entries.get packageComponent)
      "package entry missing from archive root"
    if package.ty ≠ .directory then
      .error "package entry must be a directory"
    else
      let signatures ← okOr (rootDirectory.entries.get signaturesComponent)
        "signatures entry missing from archive root"
      if signatures.ty ≠ .directory then
        .error "signatures entry must be a directory"
      else
        let loose ← absorbReferencedHashes archive fuel loose signatures.hash
        let packageFiles ← collectPackageFiles archive fuel package.hash ""
        if !loose.isEmpty then
          .error "archive contains loose files"
        else
          .ok packageFiles

end

/-- Ensure Casey package paths match the Lord carbonado sidecar bindings. -/
def ensureCaseyBindingsMatchSidecar (packageFiles : List CaseyPackageFile)
    (bindings : SortedMap String CarbonadoBinding) : Result Unit :=
  if packageFiles.length ≠ bindings.entries.length then
    .error s!"archive lists {packageFiles.length} package files but sidecar has {bindings.entries.length}"
  else
    match packageFiles.find? fun file => (bindings.get file.path).isNone with
    | some file => .error s!"sidecar missing binding for archive path `{file.path}`"
    | none =>
      match bindings.entries.find? fun binding => packageFiles.all (·.path ≠ binding.1) with
      | some binding => .error s!"archive missing package file for sidecar path `{binding.1}`"
      | none => .ok ()

end Lord.Storage
