import Lord.Storage.PackageTrees

/-! Archives of package trees.  Every directory of the tree is a blob under its hash, equal ones
are one blob, and the verification of an archive walks the tree again. -/

namespace Lord.Storage

/-! ### What a tree is encoded as -/

section

variable {α : Type} [Minicbor α]

def encoded (value : α) : Bytes := (Minicbor.toVec value).toOption.getD []

/-- The value is encoded, and its encoding reads back. -/
def Inverse (value : α) : Prop :=
  ∃ bytes, Minicbor.toVec value = .ok bytes ∧ Minicbor.decode bytes = .ok value

theorem Inverse.toVec {value : α} (h : Inverse value) :
    Minicbor.toVec value = .ok (encoded value) := by
  obtain ⟨bytes, hbytes, -⟩ := h
  simp [encoded, hbytes, Except.toOption]

theorem Inverse.decode {value : α} (h : Inverse value) :
    Minicbor.decode (encoded value) = .ok value := by
  obtain ⟨bytes, hbytes, hdecode⟩ := h
  simpa [encoded, hbytes, Except.toOption] using hdecode

end

section

variable [Blake3] [Minicbor Directory]

def blobHash (directory : Directory) : Bytes32 := Blake3.hash (encoded directory)

mutual

/-- The entry of an entry of a tree in the directory that names it. -/
def PackageTreeEntry.entry : PackageTreeEntry → Entry
  | .file file => ⟨.file, file.hash, file.size⟩
  | .directory tree =>
    let directory : Directory := ⟨.zero, PackageTree.collected .empty tree⟩
    ⟨.directory, blobHash directory, UInt64.ofNat (encoded directory).length⟩

def PackageTree.collected (entries : SortedMap String Entry) :
    List (String × PackageTreeEntry) → SortedMap String Entry
  | [] => entries
  | (name, entry) :: rest => PackageTree.collected (entries.insert name entry.entry) rest

end

def PackageTree.toDirectory (tree : PackageTree) : Directory := ⟨.zero, collected .empty tree⟩

mutual

/-- The directories of a tree, those below a directory in front of it. -/
def PackageTreeEntry.directories : PackageTreeEntry → List Directory
  | .file _ => []
  | .directory tree => PackageTree.directories tree ++ [PackageTree.toDirectory tree]

def PackageTree.directories : List (String × PackageTreeEntry) → List Directory
  | [] => []
  | (_, entry) :: rest => entry.directories ++ PackageTree.directories rest

end

theorem PackageTree.mem_directories {tree : PackageTree} {directory : Directory} :
    directory ∈ directories tree ↔ ∃ child ∈ tree, directory ∈ child.2.directories := by
  induction tree with
  | nil => simp [directories]
  | cons child rest ih =>
    obtain ⟨name, entry⟩ := child
    rw [directories, List.mem_append, ih]
    simp

/-- The blobs of directories come to those of the builder. -/
def addBlobs (files : ArchiveBuilder) (directories : List Directory) : ArchiveBuilder :=
  directories.foldl (fun files directory => files.insert (blobHash directory) (encoded directory))
    files

theorem addBlobs_append (files : ArchiveBuilder) (front back : List Directory) :
    addBlobs files (front ++ back) = addBlobs (addBlobs files front) back := by
  simp [addBlobs]

/-- The builder makes the entry of an entry, and stores the blobs of its directories. -/
theorem encodeEntry_ok (entry : PackageTreeEntry) (h : ∀ directory ∈ entry.directories,
    Inverse directory) (files : ArchiveBuilder) :
    ArchiveBuilder.encodeEntry files entry =
      .ok (entry.entry, addBlobs files entry.directories) := by
  induction entry using PackageTreeEntry.childInduction generalizing files with
  | file file => rfl
  | directory tree ih =>
    have hentries : ∀ (rest : List (String × PackageTreeEntry)) (files : ArchiveBuilder)
        (collected : SortedMap String Entry), (∀ child ∈ rest, child ∈ tree) →
        ArchiveBuilder.encodeEntries files collected rest =
          .ok (PackageTree.collected collected rest,
            addBlobs files (PackageTree.directories rest)) := by
      intro rest
      induction rest with
      | nil =>
        intro files collected _
        rfl
      | cons child rest ihRest =>
        intro files collected hsub
        obtain ⟨name, entry⟩ := child
        have hchild := hsub (name, entry) List.mem_cons_self
        have hentry := ih (name, entry) hchild (fun directory hdirectory => h directory (by
          rw [PackageTreeEntry.directories]
          exact List.mem_append_left _ (PackageTree.mem_directories.mpr ⟨_, hchild, hdirectory⟩)))
          files
        rw [ArchiveBuilder.encodeEntries, PackageTree.collected, PackageTree.directories,
          addBlobs_append]
        refine bind_eq_ok.mpr ⟨_, hentry, ?_⟩
        exact ihRest _ _ fun other hother => hsub other (List.mem_cons_of_mem _ hother)
    have hself : Inverse (PackageTree.toDirectory tree) :=
      h _ (by rw [PackageTreeEntry.directories]; simp)
    rw [ArchiveBuilder.encodeEntry, PackageTreeEntry.directories, addBlobs_append]
    refine bind_eq_ok.mpr ⟨_, hentries tree files .empty (fun _ hchild => hchild), ?_⟩
    refine bind_eq_ok.mpr ⟨_, Result.context_eq_ok.mpr hself.toVec, ?_⟩
    rw [PackageTreeEntry.entry]
    rfl

/-! ### The blobs of an archive -/

theorem PackageTree.collected_eq_foldl (entries : SortedMap String Entry)
    (tree : List (String × PackageTreeEntry)) :
    collected entries tree = (tree.map fun child => (child.1, child.2.entry)).foldl
      (fun m entry => m.insert entry.1 entry.2) entries := by
  induction tree generalizing entries with
  | nil => rfl
  | cons child rest ih =>
    rw [collected, ih]
    rfl

/-- The directory of a tree has the entries of the tree, in their order. -/
theorem PackageTree.entries_toDirectory {tree : PackageTree}
    (hsorted : tree.Pairwise fun a b => a.1 < b.1) :
    (toDirectory tree).entries.entries = tree.map fun child => (child.1, child.2.entry) := by
  rw [toDirectory, collected_eq_foldl]
  exact SortedMap.entries_foldl_insert (List.pairwise_map.mpr hsorted)

theorem mem_addBlobs {files : ArchiveBuilder} {directories : List Directory}
    {blob : Bytes32 × Bytes} (h : blob ∈ (addBlobs files directories).entries) :
    blob ∈ files.entries ∨ ∃ directory ∈ directories, blob = (blobHash directory, encoded directory) := by
  induction directories generalizing files with
  | nil => exact .inl h
  | cons directory rest ih =>
    rcases ih h with hold | ⟨other, hother, heq⟩
    · rcases (SortedMap.mem_entries_insert _).mp hold with heq | ⟨hold, -⟩
      · exact .inr ⟨directory, List.mem_cons_self, heq⟩
      · exact .inl hold
    · exact .inr ⟨other, List.mem_cons_of_mem _ hother, heq⟩

theorem isSome_addBlobs {files : ArchiveBuilder} {directories : List Directory} {hash : Bytes32}
    (h : (files.get hash).isSome = true ∨ ∃ directory ∈ directories, blobHash directory = hash) :
    ((addBlobs files directories).get hash).isSome = true := by
  induction directories generalizing files with
  | nil =>
    rcases h with h | ⟨directory, hdirectory, -⟩
    · exact h
    · cases hdirectory
  | cons directory rest ih =>
    refine ih ?_
    by_cases heq : blobHash directory = hash
    · left
      rw [← heq, SortedMap.get_insert_self]
      rfl
    · rcases h with h | ⟨other, hother, hhash⟩
      · left
        rwa [SortedMap.get_insert_of_ne _ _ (Ne.symm heq)]
      · rcases List.mem_cons.mp hother with rfl | hother
        · exact absurd hhash heq
        · exact .inr ⟨other, hother, hhash⟩

/-- The hash tells the blobs of these directories apart. -/
def HashInjective (directories : List Directory) : Prop :=
  ∀ directory ∈ directories, ∀ other ∈ directories,
    blobHash directory = blobHash other → encoded directory = encoded other

/-- Every directory is found under its hash, and reads back. -/
def Stores (archive : Archive) (directories : List Directory) : Prop :=
  ∀ directory ∈ directories, archive.files.get (blobHash directory) = some (encoded directory) ∧
    Inverse directory

theorem get_addBlobs {directories : List Directory} (h : HashInjective directories)
    {directory : Directory} (hdirectory : directory ∈ directories) :
    (addBlobs .empty directories).get (blobHash directory) = some (encoded directory) := by
  obtain ⟨content, hcontent⟩ := Option.isSome_iff_exists.mp
    (@isSome_addBlobs _ _ .empty _ _ (.inr ⟨directory, hdirectory, rfl⟩))
  rcases mem_addBlobs ((SortedMap.get_eq_some _).mp hcontent) with hnone | ⟨other, hother, heq⟩
  · cases hnone
  · obtain ⟨hhash, rfl⟩ := Prod.mk.inj heq
    rw [hcontent, h directory hdirectory other hother hhash]

/-! ### The walks over an archive -/

mutual

def PackageTreeEntry.depth : PackageTreeEntry → Nat
  | .file _ => 0
  | .directory tree => PackageTree.depth tree + 1

def PackageTree.depth : List (String × PackageTreeEntry) → Nat
  | [] => 0
  | (_, entry) :: rest => max entry.depth (PackageTree.depth rest)

end

omit [Blake3] [Minicbor Directory] in
theorem PackageTree.depth_le {tree : PackageTree} {child : String × PackageTreeEntry}
    (h : child ∈ tree) : child.2.depth ≤ depth tree := by
  induction tree with
  | nil => cases h
  | cons first rest ih =>
    obtain ⟨name, entry⟩ := first
    rw [depth]
    rcases List.mem_cons.mp h with rfl | h
    · exact le_max_left _ _
    · exact (ih h).trans (le_max_right _ _)

/-- What is left has been there before, and is no hash of these directories. -/
def Removes (loose left : List Bytes32) (directories : List Directory) : Prop :=
  ∀ hash ∈ left, hash ∈ loose ∧ ∀ directory ∈ directories, hash ≠ blobHash directory

variable {archive : Archive}

/-- The loop over the entries of a directory removes what each of its rounds removes. -/
theorem foldlM_absorb {absorb : List Bytes32 → Bytes32 → Result (List Bytes32)}
    {tree : List (String × PackageTreeEntry)}
    (h : ∀ child ∈ tree, ∀ loose, ∃ left,
      absorbEntry archive absorb loose child.2.entry = .ok left ∧
        Removes loose left child.2.directories) (loose : List Bytes32) :
    ∃ left, (tree.map fun child => child.2.entry).foldlM (absorbEntry archive absorb) loose =
        .ok left ∧ Removes loose left (PackageTree.directories tree) := by
  induction tree generalizing loose with
  | nil => exact ⟨loose, rfl, fun hash hhash => ⟨hhash, by simp [PackageTree.directories]⟩⟩
  | cons child rest ih =>
    obtain ⟨next, hnext, hremoved⟩ := h child List.mem_cons_self loose
    obtain ⟨left, hleft, hrest⟩ := ih (fun c hc => h c (List.mem_cons_of_mem _ hc)) next
    refine ⟨left, ?_, fun hash hhash => ?_⟩
    · rw [List.map_cons, List.foldlM_cons]
      exact bind_eq_ok.mpr ⟨next, hnext, hleft⟩
    · obtain ⟨hmem, hnot⟩ := hrest hash hhash
      obtain ⟨hloose, hfirst⟩ := hremoved hash hmem
      refine ⟨hloose, fun directory hdirectory => ?_⟩
      rw [PackageTree.directories] at hdirectory
      rcases List.mem_append.mp hdirectory with hdirectory | hdirectory
      · exact hfirst directory hdirectory
      · exact hnot directory hdirectory

/-- The walk from a directory removes its hash and what the loop over its entries removes. -/
theorem absorb_directory {tree : PackageTree} (hsorted : tree.Pairwise fun a b => a.1 < b.1)
    (hstores : Stores archive (PackageTreeEntry.directory tree).directories) {fuel : Nat}
    (h : ∀ child ∈ tree, ∀ loose, ∃ left,
      absorbEntry archive (absorbReferencedHashes archive fuel) loose child.2.entry = .ok left ∧
        Removes loose left child.2.directories) (loose : List Bytes32) :
    ∃ left, absorbReferencedHashes archive (fuel + 1) loose
        (blobHash (PackageTree.toDirectory tree)) = .ok left ∧
      Removes loose left (PackageTreeEntry.directory tree).directories := by
  have hself : PackageTree.toDirectory tree ∈ (PackageTreeEntry.directory tree).directories := by
    rw [PackageTreeEntry.directories]
    simp
  obtain ⟨hget, hinverse⟩ := hstores _ hself
  have hvalues : (PackageTree.toDirectory tree).entries.values =
      tree.map fun child => child.2.entry := by
    rw [SortedMap.values, PackageTree.entries_toDirectory hsorted, List.map_map]
    rfl
  obtain ⟨left, hleft, hremoved⟩ := foldlM_absorb h
    (loose.filter (· ≠ blobHash (PackageTree.toDirectory tree)))
  refine ⟨left, ?_, fun hash hhash => ?_⟩
  · rw [absorbReferencedHashes]
    simp only [hget]
    refine bind_eq_ok.mpr ⟨_, Result.context_eq_ok.mpr hinverse.decode, ?_⟩
    rw [hvalues]
    exact hleft
  · obtain ⟨hmem, hnot⟩ := hremoved hash hhash
    obtain ⟨hloose, hne⟩ := List.mem_filter.mp hmem
    refine ⟨hloose, fun directory hdirectory => ?_⟩
    rw [PackageTreeEntry.directories] at hdirectory
    rcases List.mem_append.mp hdirectory with hdirectory | hdirectory
    · exact hnot directory hdirectory
    · rw [List.mem_singleton.mp hdirectory]
      simpa using hne

theorem Stores.child {tree : PackageTree}
    (h : Stores archive (PackageTreeEntry.directory tree).directories)
    {child : String × PackageTreeEntry} (hchild : child ∈ tree) :
    Stores archive child.2.directories := by
  intro directory hdirectory
  refine h directory ?_
  rw [PackageTreeEntry.directories]
  exact List.mem_append_left _ (PackageTree.mem_directories.mpr ⟨child, hchild, hdirectory⟩)

theorem absorbEntry_ok (entry : PackageTreeEntry) (h : entry.Packed)
    (hstores : Stores archive entry.directories) {fuel : Nat} (hfuel : entry.depth ≤ fuel)
    (loose : List Bytes32) :
    ∃ left, absorbEntry archive (absorbReferencedHashes archive fuel) loose entry.entry = .ok left ∧
      Removes loose left entry.directories := by
  induction entry using PackageTreeEntry.childInduction generalizing fuel loose with
  | file file =>
    refine ⟨_, rfl, fun hash hhash => ⟨?_, by simp [PackageTreeEntry.directories]⟩⟩
    split at hhash
    · exact List.mem_of_mem_filter hhash
    · exact hhash
  | directory tree ih =>
    obtain ⟨-, hpacked⟩ := PackageTree.packed_directory.mp h
    rw [PackageTreeEntry.depth] at hfuel
    obtain ⟨fuel, rfl⟩ : ∃ f, fuel = f + 1 := ⟨fuel - 1, by omega⟩
    refine absorb_directory hpacked.sorted hstores (fun child hchild loose => ?_) loose
    have hdepth := PackageTree.depth_le hchild
    exact ih child hchild (hpacked.children child hchild) (hstores.child hchild) (by omega) loose

/-- The walk from a packed tree removes the hashes of its directories. -/
theorem absorb_tree {tree : PackageTree} (h : tree.Packed)
    (hstores : Stores archive (PackageTreeEntry.directory tree).directories) {fuel : Nat}
    (hfuel : PackageTree.depth tree < fuel) (loose : List Bytes32) :
    ∃ left, absorbReferencedHashes archive fuel loose (blobHash (PackageTree.toDirectory tree)) =
        .ok left ∧ Removes loose left (PackageTreeEntry.directory tree).directories := by
  obtain ⟨fuel, rfl⟩ : ∃ f, fuel = f + 1 := ⟨fuel - 1, by omega⟩
  refine absorb_directory h.sorted hstores (fun child hchild loose => ?_) loose
  have hdepth := PackageTree.depth_le hchild
  exact absorbEntry_ok child.2 (h.children child hchild) (hstores.child hchild) (by omega) loose

/-- The package file of a leaf. -/
def packageFile (parent : String) (leaf : List String × SourceFileEntry) : CaseyPackageFile :=
  ⟨PackageTree.joinPath parent leaf.1, leaf.2.hash, leaf.2.size⟩

/-- The files below a directory are those of the leaves of its tree, when the entries of the
directory give those of theirs. -/
theorem collect_directory {tree : PackageTree} (hsorted : tree.Pairwise fun a b => a.1 < b.1)
    (hstores : Stores archive (PackageTreeEntry.directory tree).directories) {fuel : Nat}
    {parent : String}
    (h : ∀ child ∈ tree,
      collectEntry (collectPackageFiles archive fuel) parent (child.1, child.2.entry) =
        .ok ((PackageTree.childLeaves child).map (packageFile parent))) :
    collectPackageFiles archive (fuel + 1) (blobHash (PackageTree.toDirectory tree)) parent =
      .ok ((PackageTree.leaves tree).map (packageFile parent)) := by
  have hself : PackageTree.toDirectory tree ∈ (PackageTreeEntry.directory tree).directories := by
    rw [PackageTreeEntry.directories]
    simp
  obtain ⟨hget, hinverse⟩ := hstores _ hself
  have hfiles : (PackageTree.toDirectory tree).entries.entries.mapM
      (collectEntry (collectPackageFiles archive fuel) parent) =
      .ok (tree.map fun child => (PackageTree.childLeaves child).map (packageFile parent)) := by
    rw [PackageTree.entries_toDirectory hsorted, List.mapM_map]
    exact mapM_eq_ok h
  rw [collectPackageFiles]
  refine bind_eq_ok.mpr ⟨_, okOr_eq_ok.mpr hget, ?_⟩
  refine bind_eq_ok.mpr ⟨_, Result.context_eq_ok.mpr hinverse.decode, ?_⟩
  refine bind_eq_ok.mpr ⟨_, hfiles, ?_⟩
  rw [PackageTree.leaves_eq_flatMap, List.map_flatMap, List.flatMap_def]

theorem collectEntry_ok (entry : PackageTreeEntry) (h : entry.Packed)
    (hstores : Stores archive entry.directories) {fuel : Nat} (hfuel : entry.depth ≤ fuel)
    (parent name : String) :
    collectEntry (collectPackageFiles archive fuel) parent (name, entry.entry) =
      .ok ((PackageTree.childLeaves (name, entry)).map (packageFile parent)) := by
  induction entry using PackageTreeEntry.childInduction generalizing fuel parent name with
  | file file => rfl
  | directory tree ih =>
    obtain ⟨-, hpacked⟩ := PackageTree.packed_directory.mp h
    rw [PackageTreeEntry.depth] at hfuel
    obtain ⟨fuel, rfl⟩ : ∃ f, fuel = f + 1 := ⟨fuel - 1, by omega⟩
    have hcollect := @collect_directory _ _ _ tree hpacked.sorted hstores fuel
      (childPath parent name) fun child hchild => by
        have hdepth := PackageTree.depth_le hchild
        exact ih child hchild (hpacked.children child hchild) (hstores.child hchild) (by omega)
          (childPath parent name) child.1
    refine hcollect.trans ?_
    rw [PackageTree.childLeaves_directory, List.map_map]
    rfl

theorem collect_tree {tree : PackageTree} (h : tree.Packed)
    (hstores : Stores archive (PackageTreeEntry.directory tree).directories) {fuel : Nat}
    (hfuel : PackageTree.depth tree < fuel) (parent : String) :
    collectPackageFiles archive fuel (blobHash (PackageTree.toDirectory tree)) parent =
      .ok ((PackageTree.leaves tree).map (packageFile parent)) := by
  obtain ⟨fuel, rfl⟩ : ∃ f, fuel = f + 1 := ⟨fuel - 1, by omega⟩
  refine collect_directory h.sorted hstores fun child hchild => ?_
  have hdepth := PackageTree.depth_le hchild
  exact collectEntry_ok child.2 (h.children child hchild) (hstores.child hchild) (by omega)
    parent child.1

/-! ### The archive of a package -/

/-- The tree whose directory is the root of the archive. -/
def archiveTree (package : PackageTree) : PackageTree :=
  [(packageComponent, .directory package), (signaturesComponent, .directory [])]

/-- The directories of the archive of a package, in the order in which they come to the blobs. -/
def archiveDirectories (package : PackageTree) : List Directory :=
  (PackageTreeEntry.directory (archiveTree package)).directories

def archiveOf (package : PackageTree) : Archive :=
  ⟨.zero, blobHash (PackageTree.toDirectory (archiveTree package)),
    addBlobs .empty (archiveDirectories package)⟩

omit [Blake3] [Minicbor Directory] in
theorem archiveTree_sorted (package : PackageTree) :
    (archiveTree package).Pairwise fun a b => a.1 < b.1 := by
  have hlt : packageComponent < signaturesComponent := by decide
  simpa [archiveTree] using hlt

theorem archiveDirectories_eq (package : PackageTree) :
    archiveDirectories package =
      (PackageTreeEntry.directory package).directories ++
        [PackageTree.toDirectory [], PackageTree.toDirectory (archiveTree package)] := by
  simp [archiveDirectories, archiveTree, PackageTreeEntry.directories, PackageTree.directories]

/-- The builder makes the archive of a package. -/
theorem buildPackage_ok {package : PackageTree}
    (h : ∀ directory ∈ archiveDirectories package, Inverse directory) :
    ArchiveBuilder.buildPackage
        (addBlobs .empty (PackageTreeEntry.directory package).directories)
        (PackageTreeEntry.directory package).entry [] = .ok (archiveOf package) := by
  rw [archiveDirectories_eq] at h
  have hsignatures : Inverse (PackageTree.toDirectory []) := h _ (by simp)
  have hroot : Inverse (PackageTree.toDirectory (archiveTree package)) := h _ (by simp)
  rw [ArchiveBuilder.buildPackage]
  refine bind_eq_ok.mpr ⟨_, Result.context_eq_ok.mpr hsignatures.toVec, ?_⟩
  refine bind_eq_ok.mpr ⟨_, Result.context_eq_ok.mpr hroot.toVec, ?_⟩
  rw [archiveOf, archiveDirectories_eq, addBlobs_append]
  rfl

/-- Every directory of the archive is found in it. -/
theorem stores_archiveOf {package : PackageTree}
    (h : ∀ directory ∈ archiveDirectories package, Inverse directory)
    (hinjective : HashInjective (archiveDirectories package)) :
    Stores (archiveOf package) (archiveDirectories package) :=
  fun directory hdirectory => ⟨get_addBlobs hinjective hdirectory, h directory hdirectory⟩

/-- The walk from the root of the archive leaves nothing loose. -/
theorem absorb_archiveOf {package : PackageTree} (h : package.Packed)
    (hstores : Stores archive (archiveDirectories package)) {fuel : Nat}
    (hfuel : PackageTree.depth package + 1 < fuel) (loose : List Bytes32) :
    ∃ left, absorbReferencedHashes archive fuel loose
        (blobHash (PackageTree.toDirectory (archiveTree package))) = .ok left ∧
      Removes loose left (archiveDirectories package) := by
  obtain ⟨fuel, rfl⟩ : ∃ f, fuel = f + 1 := ⟨fuel - 1, by omega⟩
  refine absorb_directory (archiveTree_sorted package) hstores (fun child hchild loose => ?_) loose
  have hbelow : Stores archive child.2.directories := hstores.child hchild
  -- both entries of the root are directories
  rw [archiveTree] at hchild
  rcases List.mem_cons.mp hchild with rfl | hchild
  · exact absorb_tree h hbelow (by omega) loose
  · rw [List.mem_singleton.mp hchild] at hbelow ⊢
    exact absorb_tree PackageTree.Packed.nil hbelow (by rw [PackageTree.depth]; omega) loose

theorem mem_files_archiveOf {package : PackageTree} {blob : Bytes32 × Bytes}
    (h : blob ∈ (archiveOf package).files.entries) :
    ∃ directory ∈ archiveDirectories package, blob = (blobHash directory, encoded directory) := by
  rcases mem_addBlobs h with hnone | hmem
  · cases hnone
  · exact hmem

theorem get_root {package : PackageTree} {name : String} {entry : PackageTreeEntry}
    (h : (name, entry) ∈ archiveTree package) :
    (PackageTree.toDirectory (archiveTree package)).entries.get name = some entry.entry := by
  rw [SortedMap.get_eq_some, PackageTree.entries_toDirectory (archiveTree_sorted package)]
  exact List.mem_map.mpr ⟨(name, entry), h, rfl⟩

/-- The verification of the archive of a package gives the files of its leaves. -/
theorem verify_archiveOf [Minicbor Archive] {package : PackageTree} (h : package.Packed)
    (hstores : Stores (archiveOf package) (archiveDirectories package)) {cbor : Bytes}
    (hcbor : Minicbor.decode cbor = .ok (archiveOf package)) {fuel : Nat}
    (hfuel : PackageTree.depth package + 1 < fuel) :
    verifyCaseyArchive fuel cbor =
      .ok ((PackageTree.leaves package).map (packageFile "")) := by
  have hhashes : (archiveOf package).files.entries.any
      (fun file => Blake3.hash file.2 ≠ file.1) = false := by
    rw [List.any_eq_false]
    intro file hfile
    obtain ⟨directory, -, rfl⟩ := mem_files_archiveOf hfile
    simp [blobHash]
  obtain ⟨hroot, hinverse⟩ := hstores (PackageTree.toDirectory (archiveTree package))
    (by rw [archiveDirectories_eq]; simp)
  obtain ⟨left, hleft, hremoved⟩ := absorb_archiveOf h hstores hfuel
    ((archiveOf package).files.entries.map Prod.fst)
  have hnone : left = [] := by
    refine List.eq_nil_iff_forall_not_mem.mpr fun hash hhash => ?_
    obtain ⟨hkey, hnot⟩ := hremoved hash hhash
    obtain ⟨blob, hblob, rfl⟩ := List.mem_map.mp hkey
    obtain ⟨directory, hdirectory, rfl⟩ := mem_files_archiveOf hblob
    exact hnot directory hdirectory rfl
  have hpackageMem : (packageComponent, .directory package) ∈ archiveTree package := by
    simp [archiveTree]
  have hsignaturesMem : (signaturesComponent, .directory []) ∈ archiveTree package := by
    simp [archiveTree]
  have hpackage := get_root hpackageMem
  have hsignatures := get_root hsignaturesMem
  have hstoresSignatures := hstores.child hsignaturesMem
  obtain ⟨left', hleft', hremoved'⟩ := absorb_tree PackageTree.Packed.nil hstoresSignatures
    (by rw [PackageTree.depth]; omega : PackageTree.depth [] < fuel) left
  have hnone' : left' = [] := by
    refine List.eq_nil_iff_forall_not_mem.mpr fun hash hhash => ?_
    have hold := (hremoved' hash hhash).1
    rw [hnone] at hold
    cases hold
  have hcollect := collect_tree h (hstores.child hpackageMem)
    (by omega : PackageTree.depth package < fuel) ""
  rw [verifyCaseyArchive]
  refine bind_eq_ok.mpr ⟨_, Result.context_eq_ok.mpr hcbor, ?_⟩
  rw [hhashes]
  refine bind_eq_ok.mpr ⟨_, okOr_eq_ok.mpr hroot, ?_⟩
  refine bind_eq_ok.mpr ⟨_, Result.context_eq_ok.mpr hinverse.decode, ?_⟩
  refine bind_eq_ok.mpr ⟨_, hleft, ?_⟩
  refine bind_eq_ok.mpr ⟨_, okOr_eq_ok.mpr hpackage, ?_⟩
  rw [if_neg (by simp [PackageTreeEntry.entry])]
  refine bind_eq_ok.mpr ⟨_, okOr_eq_ok.mpr hsignatures, ?_⟩
  rw [if_neg (by simp [PackageTreeEntry.entry])]
  refine bind_eq_ok.mpr ⟨_, hleft', ?_⟩
  refine bind_eq_ok.mpr ⟨_, hcollect, ?_⟩
  rw [hnone']
  rfl

end

end Lord.Storage
