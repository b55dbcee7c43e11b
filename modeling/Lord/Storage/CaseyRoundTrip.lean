import Lord.Storage.CaseyCodec

/-! Packing and verification: the manifest of any files whose paths fit beside each other verifies,
and gives them back. -/

namespace Lord.Storage

section

variable [Blake3] [Minicbor Directory] [Minicbor Archive]

/-- What the codec and the hash do on the blobs of the archive of these files. -/
structure Encodable (sourceFiles : SortedMap String SourceFileEntry) : Prop where
  directories : ∀ package, PackageTree.ofFiles sourceFiles = .ok package →
    ∀ directory ∈ archiveDirectories package, Inverse directory
  archive : ∀ package, PackageTree.ofFiles sourceFiles = .ok package → Inverse (archiveOf package)
  injective : ∀ package, PackageTree.ofFiles sourceFiles = .ok package →
    HashInjective (archiveDirectories package)

omit [Minicbor Archive] in
theorem fingerprint_archiveOf [Bech32] {package : PackageTree}
    (hstores : Stores (archiveOf package) (archiveDirectories package)) :
    fingerprintForArchive (archiveOf package) =
      .ok (bech32Fingerprint (PackageTreeEntry.directory package).entry.hash) := by
  obtain ⟨hroot, hinverse⟩ := hstores (PackageTree.toDirectory (archiveTree package))
    (by rw [archiveDirectories_eq]; simp)
  have hmem : (packageComponent, .directory package) ∈ archiveTree package := by
    simp [archiveTree]
  refine bind_eq_ok.mpr ⟨_, okOr_eq_ok.mpr hroot, ?_⟩
  refine bind_eq_ok.mpr ⟨_, Result.context_eq_ok.mpr hinverse.decode, ?_⟩
  exact bind_eq_ok.mpr ⟨_, okOr_eq_ok.mpr (get_root hmem), rfl⟩

end

/-- The bindings as they are encoded. -/
def cborBindings (bindings : SortedMap String CarbonadoBinding) :
    SortedMap String CarbonadoBindingCbor :=
  bindings.mapValues fun binding => ⟨binding.baoRoot, binding.format, binding.carbonadoPath⟩

theorem decodeCarbonadoSidecar_ok [Minicbor (SortedMap String CarbonadoBindingCbor)]
    {bindings : SortedMap String CarbonadoBinding} (h : Inverse (cborBindings bindings)) :
    encodeCarbonadoSidecar bindings = .ok (encoded (cborBindings bindings)) ∧
      decodeCarbonadoSidecar (encoded (cborBindings bindings)) = .ok bindings := by
  constructor
  · exact Result.context_eq_ok.mpr h.toVec
  · refine bind_eq_ok.mpr ⟨_, Result.context_eq_ok.mpr h.decode, ?_⟩
    rw [cborBindings, SortedMap.mapValues_mapValues]
    exact congrArg Except.ok (SortedMap.mapValues_id bindings)

/-- The source files as a verification lists them. -/
def packageFiles (sourceFiles : SortedMap String SourceFileEntry) : List CaseyPackageFile :=
  sourceFiles.entries.map fun file => ⟨file.1, file.2.hash, file.2.size⟩

/-- The leaves of the tree of the source files are the source files. -/
theorem leaves_perm_packageFiles {sourceFiles : SortedMap String SourceFileEntry}
    (hfit : PackageTree.PathsFit sourceFiles) {package : PackageTree}
    (h : (PackageTree.leaves package).Perm
      (sourceFiles.entries.map fun file => (PackageTree.components file.1, file.2))) :
    ((PackageTree.leaves package).map (packageFile "")).Perm (packageFiles sourceFiles) := by
  have hfiles : (sourceFiles.entries.map fun file => (PackageTree.components file.1, file.2)).map
      (packageFile "") = packageFiles sourceFiles := by
    rw [List.map_map, packageFiles]
    refine List.map_congr_left fun file hfile => ?_
    show CaseyPackageFile.mk _ _ _ = _
    rw [PackageTree.joinPath_components (hfit.nonempty file hfile)]
  exact hfiles ▸ h.map (packageFile "")

/-- Files of which no path continues another are packed; the archive verifies to just these files,
whatever directories are alike or share their hash with a file, its fingerprint is that of the
manifest, and the sidecar reads back as the bindings. -/
theorem casey_roundTrip [Blake3] [Bech32] [Minicbor Directory] [Minicbor Archive]
    [Minicbor (SortedMap String CarbonadoBindingCbor)]
    (sourceFiles : SortedMap String SourceFileEntry) (bindings : SortedMap String CarbonadoBinding)
    (hfit : PackageTree.PathsFit sourceFiles) (hencodable : Encodable sourceFiles)
    (hbindings : Inverse (cborBindings bindings)) :
    ∃ manifest, packCompatManifest sourceFiles bindings = .ok manifest ∧
      (∃ depth, ∀ fuel, depth ≤ fuel → ∃ files,
        verifyCaseyArchive fuel manifest.cbor = .ok files ∧
          files.Perm (packageFiles sourceFiles)) ∧
      caseyArchiveFingerprint manifest.cbor = .ok manifest.fingerprint ∧
      decodeCarbonadoSidecar manifest.sidecar = .ok bindings := by
  obtain ⟨package, hpackage, hpacked, hleaves⟩ := PackageTree.ofFiles_ok hfit
  have hdirectories := hencodable.directories package hpackage
  have harchive := hencodable.archive package hpackage
  have hstores := stores_archiveOf hdirectories (hencodable.injective package hpackage)
  have hfingerprint := fingerprint_archiveOf hstores
  obtain ⟨hsidecar, hbindingsBack⟩ := decodeCarbonadoSidecar_ok hbindings
  have hentry := encodeEntry_ok (.directory package) (fun directory hdirectory =>
    hdirectories directory (by rw [archiveDirectories_eq]; exact List.mem_append_left _ hdirectory))
    .empty
  refine ⟨⟨encoded (archiveOf package),
    bech32Fingerprint (PackageTreeEntry.directory package).entry.hash,
    encoded (cborBindings bindings)⟩, ?_, ⟨PackageTree.depth package + 2, ?_⟩, ?_, hbindingsBack⟩
  · refine bind_eq_ok.mpr ⟨_, hsidecar, ?_⟩
    refine bind_eq_ok.mpr ⟨_, hpackage, ?_⟩
    refine bind_eq_ok.mpr ⟨_, hentry, ?_⟩
    refine bind_eq_ok.mpr ⟨_, buildPackage_ok hdirectories, ?_⟩
    refine bind_eq_ok.mpr ⟨_, hfingerprint, ?_⟩
    exact bind_eq_ok.mpr ⟨_, Result.context_eq_ok.mpr harchive.toVec, rfl⟩
  · intro fuel hfuel
    exact ⟨_, verify_archiveOf hpacked hstores harchive.decode (by omega),
      leaves_perm_packageFiles hfit hleaves⟩
  · exact bind_eq_ok.mpr ⟨_, Result.context_eq_ok.mpr harchive.decode, hfingerprint⟩

/-! ### Two directories alike, and a file with the hash of their blob -/

section

attribute [local instance] CaseyCodec.directoryCodec CaseyCodec.archiveCodec
  CaseyCodec.sidecarCodec CaseyCodec.blake3 CaseyCodec.bech32m

/-- The file that both directories hold. -/
def alphaFile : SourceFileEntry := ⟨Blake3.hash (Utf8.encode "alpha"), 5⟩

/-- The file with the hash of their blob. -/
def blobFile : SourceFileEntry := ⟨blobHash (PackageTree.toDirectory [("x", .file alphaFile)]), 48⟩

def sharedFiles : SortedMap String SourceFileEntry where
  entries := [("a/x", alphaFile), ("b/x", alphaFile), ("c", blobFile)]
  sorted := by decide

def sharedPackage : PackageTree :=
  [("a", .directory [("x", .file alphaFile)]), ("b", .directory [("x", .file alphaFile)]),
    ("c", .file blobFile)]

def sharedBindings : SortedMap String CarbonadoBinding where
  entries := [("a/x", ⟨"aa", 12, "aa.c12"⟩), ("b/x", ⟨"aa", 12, "aa.c12"⟩),
    ("c", ⟨"bb", 12, "bb.c12"⟩)]
  sorted := by decide

theorem ofFiles_sharedFiles : PackageTree.ofFiles sharedFiles = .ok sharedPackage := rfl

theorem pathsFit_sharedFiles : PackageTree.PathsFit sharedFiles :=
  ⟨by decide +kernel, by decide +kernel⟩

theorem encodable_sharedFiles : Encodable sharedFiles := by
  have hpackage : ∀ package, PackageTree.ofFiles sharedFiles = .ok package →
      package = sharedPackage :=
    fun package h => Except.ok.inj (h.symm.trans ofFiles_sharedFiles)
  constructor
  · intro package h directory hdirectory
    rw [hpackage package h] at hdirectory
    have htext : ∀ directory ∈ archiveDirectories sharedPackage,
        CaseyCodec.TextKeys directory.entries := by decide +kernel
    exact CaseyCodec.inverse_of_reads (CaseyCodec.reads_directory (htext directory hdirectory))
  · intro package h
    rw [hpackage package h]
    exact CaseyCodec.inverse_of_reads
      (CaseyCodec.reads_archive (by decide +kernel) (by decide +kernel))
  · intro package h
    rw [hpackage package h]
    unfold HashInjective
    decide +kernel

theorem inverse_sharedBindings : Inverse (cborBindings sharedBindings) :=
  CaseyCodec.inverse_of_reads (CaseyCodec.reads_sidecar (by decide +kernel) (by decide +kernel))

/-- Such files are packed and found again. -/
theorem casey_roundTrip_shared :
    ∃ manifest, packCompatManifest sharedFiles sharedBindings = .ok manifest ∧
      (∃ depth, ∀ fuel, depth ≤ fuel → ∃ files,
        verifyCaseyArchive fuel manifest.cbor = .ok files ∧
          files.Perm (packageFiles sharedFiles)) ∧
      caseyArchiveFingerprint manifest.cbor = .ok manifest.fingerprint ∧
      decodeCarbonadoSidecar manifest.sidecar = .ok sharedBindings :=
  casey_roundTrip sharedFiles sharedBindings pathsFit_sharedFiles encodable_sharedFiles
    inverse_sharedBindings

end

end Lord.Storage
