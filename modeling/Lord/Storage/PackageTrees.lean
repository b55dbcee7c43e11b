import Lord.Storage.FilepackCbor
import Mathlib.Data.List.Perm.Basic

/-! Package trees and their leaves: a tree that grows by paths of which none continues another has
one leaf for each of them. -/

namespace Lord.Storage

mutual

/-- The files below an entry, under the components of their paths. -/
def PackageTreeEntry.leaves : PackageTreeEntry → List (List String × SourceFileEntry)
  | .file file => [([], file)]
  | .directory tree => PackageTree.leaves tree

def PackageTree.leaves : List (String × PackageTreeEntry) → List (List String × SourceFileEntry)
  | [] => []
  | (name, entry) :: rest =>
    entry.leaves.map (fun leaf => (name :: leaf.1, leaf.2)) ++ PackageTree.leaves rest

end

mutual

/-- The names of every directory ascend, and no directory below is empty. -/
def PackageTreeEntry.Packed : PackageTreeEntry → Prop
  | .file _ => True
  | .directory tree =>
    tree ≠ [] ∧ (tree.Pairwise fun a b => a.1 < b.1) ∧ PackageTree.ChildrenPacked tree

def PackageTree.ChildrenPacked : List (String × PackageTreeEntry) → Prop
  | [] => True
  | (_, entry) :: rest => entry.Packed ∧ PackageTree.ChildrenPacked rest

end

/-- What holds of files, and of a directory when of all that it names, holds of every entry. -/
@[elab_as_elim]
theorem PackageTreeEntry.childInduction {motive : PackageTreeEntry → Prop}
    (file : ∀ file, motive (.file file))
    (directory : ∀ tree : List (String × PackageTreeEntry),
      (∀ child ∈ tree, motive child.2) → motive (.directory tree))
    (entry : PackageTreeEntry) : motive entry := by
  refine @PackageTreeEntry.rec motive (fun tree => ∀ child ∈ tree, motive child.2)
    (fun child => motive child.2) directory file (by simp) ?_ (fun _ _ h => h) entry
  intro child rest hchild hrest
  exact List.forall_mem_cons.mpr ⟨hchild, hrest⟩

namespace PackageTree

/-- The same of a whole tree, which may be empty. -/
structure Packed (tree : PackageTree) : Prop where
  sorted : tree.Pairwise fun a b => a.1 < b.1
  children : ∀ child ∈ tree, child.2.Packed

theorem childrenPacked_iff {tree : PackageTree} :
    ChildrenPacked tree ↔ ∀ child ∈ tree, child.2.Packed := by
  induction tree with
  | nil => simp [ChildrenPacked]
  | cons child rest ih =>
    obtain ⟨name, entry⟩ := child
    rw [ChildrenPacked, ih, List.forall_mem_cons]

theorem packed_directory {tree : PackageTree} :
    (PackageTreeEntry.directory tree).Packed ↔ tree ≠ [] ∧ Packed tree := by
  rw [PackageTreeEntry.Packed, childrenPacked_iff]
  exact ⟨fun h => ⟨h.1, h.2.1, h.2.2⟩, fun h => ⟨h.1, h.2.sorted, h.2.children⟩⟩

/-- The files below one child of a directory. -/
def childLeaves (child : String × PackageTreeEntry) : List (List String × SourceFileEntry) :=
  child.2.leaves.map fun leaf => (child.1 :: leaf.1, leaf.2)

theorem leaves_eq_flatMap (tree : PackageTree) : leaves tree = tree.flatMap childLeaves := by
  induction tree with
  | nil => rfl
  | cons child rest ih =>
    obtain ⟨name, entry⟩ := child
    rw [leaves, ih, List.flatMap_cons]
    rfl

/-- Every directory below a packed one has a file. -/
theorem leaves_ne_nil (entry : PackageTreeEntry) (h : entry.Packed) : entry.leaves ≠ [] := by
  induction entry using PackageTreeEntry.childInduction with
  | file file => simp [PackageTreeEntry.leaves]
  | directory tree ih =>
    obtain ⟨hne, hpacked⟩ := packed_directory.mp h
    obtain ⟨child, hchild⟩ := List.exists_mem_of_ne_nil tree hne
    obtain ⟨leaf, hleaf⟩ := List.exists_mem_of_ne_nil _
      (ih child hchild (hpacked.children child hchild))
    have hmem : (child.1 :: leaf.1, leaf.2) ∈ leaves tree := by
      rw [leaves_eq_flatMap]
      exact List.mem_flatMap.mpr ⟨child, hchild, List.mem_map.mpr ⟨leaf, hleaf, rfl⟩⟩
    exact List.ne_nil_of_mem hmem

/-! ### Insertion -/

theorem filter_of_get_none {tree : PackageTree} {name : String} (h : get tree name = none) :
    ∀ child ∈ tree, child.1 ≠ name := by
  intro child hchild hname
  rw [get, Option.map_eq_none_iff, List.find?_eq_none] at h
  exact h child hchild (decide_eq_true hname)

theorem mem_of_get {tree : PackageTree} {name : String} {entry : PackageTreeEntry}
    (h : get tree name = some entry) : (name, entry) ∈ tree := by
  obtain ⟨child, hchild, rfl⟩ := Option.map_eq_some_iff.mp h
  have hname : child.1 = name := by simpa using List.find?_some hchild
  subst hname
  exact List.mem_of_find?_eq_some hchild

/-- The entry takes the place of any other under its name. -/
theorem put_perm (tree : PackageTree) (name : String) (entry : PackageTreeEntry) :
    (put tree name entry).Perm ((name, entry) :: tree.filter (·.1 ≠ name)) := by
  have hsides : (tree.filter (·.1 < name) ++ tree.filter (name < ·.1)).Perm
      (tree.filter (·.1 ≠ name)) := by
    have hsplit := List.filter_append_perm (fun child : String × PackageTreeEntry =>
      decide (child.1 < name)) (tree.filter (·.1 ≠ name))
    rw [List.filter_filter, List.filter_filter] at hsplit
    have hbelow : (tree.filter fun child => decide (child.1 < name) && decide (child.1 ≠ name)) =
        tree.filter (·.1 < name) := by
      refine List.filter_congr fun child _ => ?_
      by_cases hlt : child.1 < name
      · simp [hlt, hlt.ne]
      · simp [hlt]
    have habove : (tree.filter fun child => !decide (child.1 < name) && decide (child.1 ≠ name)) =
        tree.filter (name < ·.1) := by
      refine List.filter_congr fun child _ => ?_
      rcases lt_trichotomy child.1 name with hlt | heq | hgt
      · simp [hlt, hlt.not_gt]
      · simp [heq]
      · simp [hgt, hgt.not_gt, hgt.ne']
    rwa [hbelow, habove] at hsplit
  exact List.perm_middle.trans (hsides.cons _)

theorem put_ne_nil (tree : PackageTree) (name : String) (entry : PackageTreeEntry) :
    put tree name entry ≠ [] := by
  simp [put]

theorem Packed.nil : Packed [] := ⟨.nil, by simp⟩

theorem Packed.put {tree : PackageTree} (h : Packed tree) (name : String)
    {entry : PackageTreeEntry} (hentry : entry.Packed) : Packed (put tree name entry) := by
  constructor
  · refine List.pairwise_append.mpr ⟨h.sorted.filter _, List.pairwise_cons.mpr
      ⟨?_, h.sorted.filter _⟩, ?_⟩
    · intro child hchild
      simpa using (List.mem_filter.mp hchild).2
    · intro a ha b hb
      have hbelow : a.1 < name := by simpa using (List.mem_filter.mp ha).2
      rcases List.mem_cons.mp hb with rfl | hb
      · exact hbelow
      · exact hbelow.trans (by simpa using (List.mem_filter.mp hb).2)
  · intro child hchild
    rcases List.mem_cons.mp ((put_perm tree name entry).mem_iff.mp hchild) with rfl | hchild
    · exact hentry
    · exact h.children child (List.mem_of_mem_filter hchild)

theorem perm_of_get {tree : PackageTree} (h : Packed tree) {name : String}
    {entry : PackageTreeEntry} (hget : get tree name = some entry) :
    tree.Perm ((name, entry) :: tree.filter (·.1 ≠ name)) := by
  have hsorted := h.sorted
  have hmem := mem_of_get hget
  clear h hget
  induction tree with
  | nil => cases hmem
  | cons child rest ih =>
    obtain ⟨hfirst, hrest⟩ := List.pairwise_cons.mp hsorted
    rcases List.mem_cons.mp hmem with rfl | hmem
    · have hkeep : rest.filter (·.1 ≠ name) = rest := by
        refine List.filter_eq_self.mpr fun other hother => ?_
        simpa using (hfirst other hother).ne'
      rw [List.filter_cons_of_neg (by simp), hkeep]
    · have hne : child.1 ≠ name := (hfirst _ hmem).ne
      have hperm := (ih hrest hmem).cons child
      rw [List.filter_cons_of_pos (by simpa using hne)]
      exact hperm.trans (.swap _ _ _)

theorem leaves_perm {tree other : PackageTree} (h : tree.Perm other) :
    (leaves tree).Perm (leaves other) := by
  rw [leaves_eq_flatMap, leaves_eq_flatMap]
  exact h.flatMap_right _

/-- No path of the tree continues these components, or is continued by them. -/
def Fits (tree : PackageTree) (components : List String) : Prop :=
  ∀ leaf ∈ leaves tree, ¬leaf.1 <+: components ∧ ¬components <+: leaf.1

theorem mem_leaves_of_child {tree : PackageTree} {name : String} {entry : PackageTreeEntry}
    (hmem : (name, entry) ∈ tree) {leaf : List String × SourceFileEntry}
    (hleaf : leaf ∈ entry.leaves) : (name :: leaf.1, leaf.2) ∈ leaves tree := by
  rw [leaves_eq_flatMap]
  exact List.mem_flatMap.mpr ⟨_, hmem, List.mem_map.mpr ⟨leaf, hleaf, rfl⟩⟩

theorem childLeaves_directory (name : String) (tree : PackageTree) :
    childLeaves (name, .directory tree) =
      (leaves tree).map fun leaf => (name :: leaf.1, leaf.2) := rfl

/-- The leaves with a new entry, and with one in the place of another. -/
theorem leaves_put_of_none {tree : PackageTree} {name : String} (hget : get tree name = none)
    (entry : PackageTreeEntry) :
    (leaves (put tree name entry)).Perm (childLeaves (name, entry) ++ leaves tree) := by
  have hkeep : tree.filter (·.1 ≠ name) = tree := by
    refine List.filter_eq_self.mpr fun child hchild => ?_
    simpa using filter_of_get_none hget child hchild
  have hperm := leaves_perm (put_perm tree name entry)
  rw [hkeep] at hperm
  exact hperm

theorem leaves_put_of_some {tree : PackageTree} (h : Packed tree) {name : String}
    {old : PackageTreeEntry} (hget : get tree name = some old) {entry : PackageTreeEntry}
    {added : List (List String × SourceFileEntry)}
    (hleaves : (childLeaves (name, entry)).Perm (added ++ childLeaves (name, old))) :
    (leaves (put tree name entry)).Perm (added ++ leaves tree) := by
  have hput : (leaves (put tree name entry)).Perm
      (childLeaves (name, entry) ++ leaves (tree.filter (·.1 ≠ name))) :=
    leaves_perm (put_perm tree name entry)
  have hold : (leaves tree).Perm (childLeaves (name, old) ++ leaves (tree.filter (·.1 ≠ name))) :=
    leaves_perm (perm_of_get h hget)
  calc leaves (put tree name entry)
      |>.Perm (childLeaves (name, entry) ++ leaves (tree.filter (·.1 ≠ name))) := hput
    _ |>.Perm (added ++ childLeaves (name, old) ++ leaves (tree.filter (·.1 ≠ name))) :=
        hleaves.append_right _
    _ |>.Perm (added ++ leaves tree) := by
        rw [List.append_assoc]
        exact hold.symm.append_left added

theorem insertComponents_cons (path : String) (file : SourceFileEntry) (component : String)
    {rest : List String} (hrest : rest ≠ []) (tree : PackageTree) :
    insertComponents path file (component :: rest) tree =
      (match get tree component with
        | some (.file _) =>
          .error s!"path component `{component}` in `{path}` already contains a file"
        | some (.directory directory) =>
          insertComponents path file rest directory >>= fun directory =>
            .ok (put tree component (.directory directory))
        | none =>
          insertComponents path file rest [] >>= fun directory =>
            .ok (put tree component (.directory directory))) := by
  obtain ⟨next, rest, rfl⟩ := List.exists_cons_of_ne_nil hrest
  rfl

/-- A path that fits in becomes a leaf, and the others stay. -/
theorem insertComponents_ok (path : String) (file : SourceFileEntry) {components : List String}
    (hne : components ≠ []) {tree : PackageTree} (h : Packed tree) (hfits : Fits tree components) :
    ∃ tree', insertComponents path file components tree = .ok tree' ∧ tree' ≠ [] ∧ Packed tree' ∧
      (leaves tree').Perm ((components, file) :: leaves tree) := by
  induction components generalizing tree with
  | nil => exact absurd rfl hne
  | cons component rest ih =>
    cases rest with
    | nil =>
      have hnone : get tree component = none := by
        cases hget : get tree component with
        | none => rfl
        | some entry =>
          have hmem := mem_of_get hget
          obtain ⟨leaf, hleaf⟩ := List.exists_mem_of_ne_nil _ (leaves_ne_nil entry (h.children _ hmem))
          have hclash := (hfits _ (mem_leaves_of_child hmem hleaf)).2
          exact absurd (List.cons_prefix_cons.mpr ⟨rfl, List.nil_prefix⟩) hclash
      refine ⟨put tree component (.file file), ?_, put_ne_nil _ _ _, h.put _ trivial, ?_⟩
      · rw [insertComponents, hnone]
        rfl
      · exact leaves_put_of_none hnone (.file file)
    | cons next rest =>
      rw [insertComponents_cons _ _ _ (by simp)]
      cases hget : get tree component with
      | none =>
        obtain ⟨child, hchild, hchildNe, hpacked, hperm⟩ := @ih (by simp) []
          .nil (by intro leaf hleaf; cases hleaf)
        refine ⟨put tree component (.directory child), ?_, put_ne_nil _ _ _,
          h.put _ (packed_directory.mpr ⟨hchildNe, hpacked⟩), ?_⟩
        · exact bind_eq_ok.mpr ⟨child, hchild, rfl⟩
        · refine (leaves_put_of_none hget (.directory child)).trans ?_
          rw [childLeaves_directory]
          exact (hperm.map _).append_right _
      | some entry =>
        have hmem := mem_of_get hget
        cases entry with
        | file other =>
          have hleaf := mem_leaves_of_child hmem
            (by simp [PackageTreeEntry.leaves] : (([] : List String), other) ∈ _)
          have hclash := (hfits _ hleaf).1
          exact absurd (List.cons_prefix_cons.mpr ⟨rfl, List.nil_prefix⟩) hclash
        | directory directory =>
          have hinner : Fits directory (next :: rest) := by
            intro leaf hleaf
            have hclash := hfits _ (mem_leaves_of_child hmem hleaf)
            rw [List.cons_prefix_cons, List.cons_prefix_cons] at hclash
            exact ⟨fun hp => hclash.1 ⟨rfl, hp⟩, fun hp => hclash.2 ⟨rfl, hp⟩⟩
          obtain ⟨child, hchild, hchildNe, hpacked, hperm⟩ := @ih (by simp) directory
            (packed_directory.mp (h.children _ hmem)).2 hinner
          refine ⟨put tree component (.directory child), ?_, put_ne_nil _ _ _,
            h.put _ (packed_directory.mpr ⟨hchildNe, hpacked⟩), ?_⟩
          · exact bind_eq_ok.mpr ⟨child, hchild, rfl⟩
          · refine @leaves_put_of_some _ h _ _ hget _ [(component :: next :: rest, file)] ?_
            rw [childLeaves_directory, childLeaves_directory]
            exact hperm.map _

/-! ### Paths -/

/-- The path of these components behind a parent. -/
def joinPath (parent : String) (components : List String) : String :=
  components.foldl childPath parent

/-- No component of a path is empty, and no path continues another. -/
structure PathsFit (sourceFiles : SortedMap String SourceFileEntry) : Prop where
  nonempty : ∀ file ∈ sourceFiles.entries, ∀ component ∈ components file.1, component ≠ ""
  apart : ∀ file ∈ sourceFiles.entries, ∀ other ∈ sourceFiles.entries,
    components file.1 <+: components other.1 → components file.1 = components other.1

theorem components_ne_nil (path : String) : components path ≠ [] := by
  simp [components, List.splitOn_ne_nil]

theorem childPath_of_ne {parent : String} (h : parent ≠ "") (name : String) :
    childPath parent name = parent ++ ("/" ++ name) := by
  rw [childPath, if_neg (by simpa using h), ← String.append_assoc]
  rfl

theorem joinPath_of_ne {parent : String} (h : parent ≠ "") (names : List String) :
    joinPath parent names = "/".intercalate (parent :: names) := by
  induction names generalizing parent with
  | nil => rw [String.intercalate_singleton]; rfl
  | cons name names ih =>
    have hne : childPath parent name ≠ "" := by
      rw [childPath_of_ne h]
      intro hempty
      have hlist := congrArg String.toList hempty
      simp at hlist
    show joinPath (childPath parent name) names = _
    rw [ih hne, childPath_of_ne h, String.intercalate_cons_append, String.intercalate_cons_append,
      String.intercalate_cons_cons, String.append_assoc]

theorem intercalate_components (path : String) : "/".intercalate (components path) = path := by
  rw [← String.toList_inj, String.toList_intercalate]
  have hchars : (components path).map String.toList = path.toList.splitOn '/' := by
    simp [components]
  rw [hchars]
  exact List.intercalate_splitOn '/'

theorem components_injective {path other : String} (h : components path = components other) :
    path = other := by
  rw [← intercalate_components path, h, intercalate_components]

/-- The components of a path make up the path again, when the first is not empty. -/
theorem joinPath_components {path : String} (h : ∀ component ∈ components path, component ≠ "") :
    joinPath "" (components path) = path := by
  obtain ⟨first, rest, hcomponents⟩ := List.exists_cons_of_ne_nil (components_ne_nil path)
  have hfirst : first ≠ "" := h first (by simp [hcomponents])
  calc joinPath "" (components path) = joinPath first rest := by rw [hcomponents]; rfl
    _ = "/".intercalate (components path) := by rw [joinPath_of_ne hfirst, hcomponents]
    _ = path := intercalate_components path

/-- The files of a list of paths of which none continues another become the leaves of the tree. -/
theorem foldlM_insertFile {files : List (String × SourceFileEntry)} {tree : PackageTree}
    (h : Packed tree) (hfits : ∀ file ∈ files, Fits tree (components file.1))
    (hapart : files.Pairwise fun a b =>
      ¬components a.1 <+: components b.1 ∧ ¬components b.1 <+: components a.1) :
    ∃ tree', files.foldlM (fun tree file => insertFile tree file.1 file.2) tree = .ok tree' ∧
      Packed tree' ∧
      (leaves tree').Perm (files.map (fun file => (components file.1, file.2)) ++ leaves tree) := by
  induction files generalizing tree with
  | nil => exact ⟨tree, rfl, h, .refl _⟩
  | cons file rest ih =>
    obtain ⟨hfile, hrest⟩ := List.pairwise_cons.mp hapart
    obtain ⟨next, hnext, -, hpacked, hleaves⟩ := insertComponents_ok file.1 file.2
      (components_ne_nil file.1) h (hfits file (by simp))
    have hnextFits : ∀ other ∈ rest, Fits next (components other.1) := by
      intro other hother leaf hleaf
      rcases List.mem_cons.mp (hleaves.mem_iff.mp hleaf) with rfl | hleaf
      · exact hfile other hother
      · exact hfits other (List.mem_cons_of_mem _ hother) leaf hleaf
    obtain ⟨tree', htree', hpacked', hleaves'⟩ := ih hpacked hnextFits hrest
    refine ⟨tree', ?_, hpacked', ?_⟩
    · rw [List.foldlM_cons]
      exact bind_eq_ok.mpr ⟨next, hnext, htree'⟩
    · refine hleaves'.trans ((hleaves.append_left _).trans ?_)
      exact List.perm_middle

/-- The tree of the source files has them as its leaves. -/
theorem ofFiles_ok {sourceFiles : SortedMap String SourceFileEntry} (h : PathsFit sourceFiles) :
    ∃ tree, ofFiles sourceFiles = .ok tree ∧ Packed tree ∧
      (leaves tree).Perm (sourceFiles.entries.map fun file => (components file.1, file.2)) := by
  have hapart : sourceFiles.entries.Pairwise fun a b =>
      ¬components a.1 <+: components b.1 ∧ ¬components b.1 <+: components a.1 := by
    refine sourceFiles.sorted.imp_of_mem fun {a b} ha hb hlt => ?_
    constructor
    · exact fun hprefix => hlt.ne (components_injective (h.apart a ha b hb hprefix))
    · exact fun hprefix => hlt.ne' (components_injective (h.apart b hb a ha hprefix))
  obtain ⟨tree, htree, hpacked, hleaves⟩ := @foldlM_insertFile sourceFiles.entries []
    .nil (by intro file _ leaf hleaf; cases hleaf) hapart
  rw [leaves, List.append_nil] at hleaves
  exact ⟨tree, htree, hpacked, hleaves⟩

end PackageTree

end Lord.Storage
