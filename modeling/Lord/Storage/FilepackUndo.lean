import Lord.Storage.Filepack

/-! The undo of a filepack whose publish fails.  The fingerprints of its commitments are recorded while
the transaction changes them, and written back in the order in which they were recorded. -/

namespace Lord.Storage

/-- The roots that the entries of a manifest name. -/
def entryRoots : List FilepackEntry → List Bytes32
  | [] => []
  | entry :: rest =>
    match parseEntryRoot entry.baoRoot with
    | .ok baoRoot => baoRoot :: entryRoots rest
    | .error _ => entryRoots rest

theorem entryRoots_cons {entry : FilepackEntry} {baoRoot : Bytes32}
    (h : parseEntryRoot entry.baoRoot = .ok baoRoot) (rest : List FilepackEntry) :
    entryRoots (entry :: rest) = baoRoot :: entryRoots rest := by
  rw [entryRoots, h]

/-- The fingerprint in the row of a commitment. -/
def StorageStore.filepackFpOf (s : StorageStore) (baoRoot : Bytes32) : Option String :=
  (s.getCommitment baoRoot).bind CommitmentMeta.filepackFp

/-- The last fingerprint that is recorded for a commitment. -/
def lastRecorded (baoRoot : Bytes32) : List (Bytes32 × Option String) → Option (Option String)
  | [] => none
  | (root, fp) :: rest => (lastRecorded baoRoot rest).or (if root = baoRoot then some fp else none)

/-- The row of a commitment with the last fingerprint that is recorded for it. -/
def restoredRow (previousFps : List (Bytes32 × Option String)) (row : CommitmentMeta) :
    CommitmentMeta :=
  { row with filepackFp := (lastRecorded row.baoRoot previousFps).getD row.filepackFp }

/-! ### The rows after a rollback -/

/-- A rollback leaves each commitment with the last fingerprint that is recorded for it. -/
theorem getCommitment_rollback (s : StorageStore) (previousFps : List (Bytes32 × Option String))
    (r : Bytes32) :
    (rollbackFilepackMetadata s previousFps).getCommitment r =
      (s.getCommitment r).map (restoredRow previousFps) := by
  induction previousFps generalizing s with
  | nil => exact Option.map_id'.symm
  | cons previous rest ih =>
    obtain ⟨root, fp⟩ := previous
    unfold rollbackFilepackMetadata
    cases hroot : s.getCommitment root with
    | none =>
      dsimp only
      rw [ih]
      refine Option.map_congr fun row hrow => ?_
      have hkey := StorageStore.baoRoot_of_getCommitment hrow
      have hne : root ≠ row.baoRoot := by
        rintro rfl
        rw [← hkey, hroot] at hrow
        cases hrow
      simp [restoredRow, lastRecorded, hne]
    | some found =>
      have hfound := StorageStore.baoRoot_of_getCommitment hroot
      dsimp only
      rw [ih, StorageStore.getCommitment_putCommitment]
      by_cases hr : root = r
      · subst hr
        rw [if_pos hfound, hroot]
        simp only [Option.map_some, restoredRow, lastRecorded, hfound, if_true]
        cases lastRecorded root rest <;> rfl
      · rw [if_neg (by rw [hfound]; exact hr)]
        refine Option.map_congr fun row hrow => ?_
        have hkey := StorageStore.baoRoot_of_getCommitment hrow
        have hne : root ≠ row.baoRoot := by rwa [hkey]
        simp [restoredRow, lastRecorded, hne]

/-! ### What is recorded -/

/-- One round of the loop over the entries. -/
theorem commitFilepackMetadata_cons {s t : StorageStore} {fingerprint : String} {entry : FilepackEntry}
    {rest : List FilepackEntry} {previousFps : List (Bytes32 × Option String)}
    (h : commitFilepackMetadata s fingerprint (entry :: rest) = .ok (previousFps, t)) :
    ∃ baoRoot row tail, parseEntryRoot entry.baoRoot = .ok baoRoot ∧
      s.getCommitment baoRoot = some row ∧
      previousFps = (baoRoot, s.filepackFpOf baoRoot) :: tail ∧
      commitFilepackMetadata (s.putCommitment { row with filepackFp := some fingerprint }) fingerprint
        rest = .ok (tail, t) := by
  obtain ⟨baoRoot, hparse, h⟩ := bind_eq_ok.mp h
  obtain ⟨updated, hupdate, h⟩ := bind_eq_ok.mp h
  obtain ⟨⟨tail, t'⟩, htail, h⟩ := bind_eq_ok.mp h
  cases h
  unfold StorageStore.updateFilepackFp at hupdate
  cases hrow : s.getCommitment baoRoot with
  | none =>
    rw [hrow] at hupdate
    cases hupdate
  | some row =>
    rw [hrow] at hupdate
    cases hupdate
    refine ⟨baoRoot, row, tail, hparse, hrow, ?_, htail⟩
    rw [StorageStore.filepackFpOf, hrow]

/-- The row of a commitment behind the transaction. -/
theorem getCommitment_committed {s t : StorageStore} {fingerprint : String}
    {entries : List FilepackEntry} {previousFps : List (Bytes32 × Option String)}
    (h : commitFilepackMetadata s fingerprint entries = .ok (previousFps, t)) (r : Bytes32) :
    t.getCommitment r = if r ∈ entryRoots entries then
      (s.getCommitment r).map fun row => { row with filepackFp := some fingerprint }
    else s.getCommitment r := by
  induction entries generalizing s previousFps with
  | nil =>
    cases h
    rfl
  | cons entry rest ih =>
    obtain ⟨baoRoot, row, tail, hparse, hrow, -, htail⟩ := commitFilepackMetadata_cons h
    have hkey := StorageStore.baoRoot_of_getCommitment hrow
    rw [ih htail, entryRoots_cons hparse, StorageStore.getCommitment_putCommitment]
    dsimp only
    subst hkey
    by_cases hr : row.baoRoot = r
    · subst hr
      rw [if_pos rfl, if_pos List.mem_cons_self, hrow]
      simp only [Option.map_some, ite_self]
    · simp only [List.mem_cons, Ne.symm hr, hr, false_or, if_false]

/-- Every root that is named has a row. -/
theorem exists_row_of_committed {s t : StorageStore} {fingerprint : String}
    {entries : List FilepackEntry} {previousFps : List (Bytes32 × Option String)}
    (h : commitFilepackMetadata s fingerprint entries = .ok (previousFps, t)) {r : Bytes32}
    (hr : r ∈ entryRoots entries) : ∃ row, s.getCommitment r = some row := by
  induction entries generalizing s previousFps with
  | nil => cases hr
  | cons entry rest ih =>
    obtain ⟨baoRoot, row, tail, hparse, hrow, -, htail⟩ := commitFilepackMetadata_cons h
    rw [entryRoots_cons hparse] at hr
    rcases List.mem_cons.mp hr with rfl | hr
    · exact ⟨row, hrow⟩
    · obtain ⟨found, hfound⟩ := ih htail hr
      rw [StorageStore.getCommitment_putCommitment] at hfound
      split at hfound
      · rename_i heq
        exact ⟨row, by rw [← heq, ← hrow, StorageStore.baoRoot_of_getCommitment hrow]⟩
      · exact ⟨found, hfound⟩

/-- The fingerprint that is recorded last for a root: the one before the transaction where the root is
named once, and the one that the transaction writes where it is named again. -/
theorem lastRecorded_committed {s t : StorageStore} {fingerprint : String}
    {entries : List FilepackEntry} {previousFps : List (Bytes32 × Option String)}
    (h : commitFilepackMetadata s fingerprint entries = .ok (previousFps, t)) (r : Bytes32) :
    lastRecorded r previousFps =
      if (entryRoots entries).count r = 0 then none
      else if (entryRoots entries).count r = 1 then some (s.filepackFpOf r)
      else some (some fingerprint) := by
  induction entries generalizing s previousFps with
  | nil =>
    cases h
    rfl
  | cons entry rest ih =>
    obtain ⟨baoRoot, row, tail, hparse, hrow, rfl, htail⟩ := commitFilepackMetadata_cons h
    have hkey := StorageStore.baoRoot_of_getCommitment hrow
    have hrecorded : (s.putCommitment { row with filepackFp := some fingerprint }).filepackFpOf r =
        if baoRoot = r then some fingerprint else s.filepackFpOf r := by
      rw [StorageStore.filepackFpOf, StorageStore.getCommitment_putCommitment]
      dsimp only
      rw [hkey]
      split <;> rfl
    rw [lastRecorded, ih htail, entryRoots_cons hparse, hrecorded]
    by_cases hr : baoRoot = r
    · subst hr
      rcases Nat.eq_zero_or_pos ((entryRoots rest).count baoRoot) with hzero | hpos
      · simp [hzero]
      · have hne : (entryRoots rest).count baoRoot ≠ 0 := by omega
        simp [hne]
    · rw [List.count_cons_of_ne hr]
      simp only [hr, if_false, Option.or_none]

/-! ### The undo -/

/-- The rows are as they were. -/
def SameRows (s t : StorageStore) : Prop := ∀ r, t.getCommitment r = s.getCommitment r

/-- A root that is named more than once has the fingerprint already. -/
def RepeatsBound (s : StorageStore) (fingerprint : String) (entries : List FilepackEntry) : Prop :=
  ∀ r, 2 ≤ (entryRoots entries).count r → s.filepackFpOf r = some fingerprint

/-- A rollback behind the transaction restores the rows exactly when the roots that are named more than
once had the fingerprint already. -/
theorem sameRows_rollback_iff {s t : StorageStore} {fingerprint : String}
    {entries : List FilepackEntry} {previousFps : List (Bytes32 × Option String)}
    (h : commitFilepackMetadata s fingerprint entries = .ok (previousFps, t)) :
    SameRows s (rollbackFilepackMetadata t previousFps) ↔ RepeatsBound s fingerprint entries := by
  refine forall_congr' fun r => ?_
  rw [getCommitment_rollback, getCommitment_committed h]
  have hlast := lastRecorded_committed h r
  have hcount : r ∈ entryRoots entries ↔ (entryRoots entries).count r ≠ 0 := by
    rw [← List.count_pos_iff]
    omega
  have hunchanged : ∀ row, s.getCommitment r = some row → lastRecorded r previousFps = none →
      restoredRow previousFps row = row := by
    intro row hrow hnone
    have hkey := StorageStore.baoRoot_of_getCommitment hrow
    subst hkey
    rw [restoredRow, hnone]
    rfl
  rcases Nat.lt_trichotomy ((entryRoots entries).count r) 1 with hnever | honce | hagain
  · -- not named: not written
    have hzero : (entryRoots entries).count r = 0 := by omega
    rw [if_pos hzero] at hlast
    have hout : r ∉ entryRoots entries := by
      rw [hcount, hzero]
      exact not_not.mpr rfl
    rw [if_neg hout]
    refine ⟨fun _ hrepeat => by omega, fun _ => ?_⟩
    cases hrow : s.getCommitment r with
    | none => rfl
    | some row => rw [Option.map_some, hunchanged row hrow hlast]
  · rw [if_neg (by omega), if_pos honce] at hlast
    have hin : r ∈ entryRoots entries := by
      rw [hcount]
      omega
    obtain ⟨row, hrow⟩ := exists_row_of_committed h hin
    have hkey := StorageStore.baoRoot_of_getCommitment hrow
    subst hkey
    rw [if_pos hin, hrow]
    refine ⟨fun _ hrepeat => by omega, fun _ => ?_⟩
    simp only [Option.map_some, restoredRow, hlast, StorageStore.filepackFpOf, hrow,
      Option.bind_some, Option.getD_some]
  · rw [if_neg (by omega), if_neg (by omega)] at hlast
    have hin : r ∈ entryRoots entries := by
      rw [hcount]
      omega
    obtain ⟨row, hrow⟩ := exists_row_of_committed h hin
    have hkey := StorageStore.baoRoot_of_getCommitment hrow
    subst hkey
    rw [if_pos hin, hrow]
    simp only [Option.map_some, restoredRow, hlast, StorageStore.filepackFpOf, hrow,
      Option.bind_some, Option.getD_some, Option.some.injEq]
    constructor
    · intro hsame _
      exact (congrArg CommitmentMeta.filepackFp hsame).symm
    · intro hbound
      rw [← hbound hagain]

/-- The sidecar or the manifest is not published. -/
def FilepackEnv.PublishFails (env : FilepackEnv) (options : CreateFilepackOptions) : Prop :=
  (options.filepackCompat = true ∧ ∃ err, env.publishSidecar = .error err) ∨
    ((options.filepackCompat = true → env.publishSidecar = .ok ()) ∧
      ∃ err, env.publishManifest = .error err)

/-- A publish that fails behind the transaction ends in the rollback. -/
theorem publishFilepack_failed {s t : StorageStore} {env : FilepackEnv}
    {options : CreateFilepackOptions} {entries : List FilepackEntry} {fingerprint : String}
    {previousFps : List (Bytes32 × Option String)} (hfp : env.fingerprint entries = .ok fingerprint)
    (hwrite : env.writeManifest = .ok ())
    (hcommit : commitFilepackMetadata s fingerprint entries = .ok (previousFps, t))
    (hfails : env.PublishFails options) :
    (publishFilepack s env options entries).2 = rollbackFilepackMetadata t previousFps := by
  unfold publishFilepack
  simp only [hfp, hwrite, hcommit]
  rcases hfails with ⟨hcompat, err, hsidecar⟩ | ⟨hsidecar, err, hmanifest⟩
  · simp only [hcompat, hsidecar, if_true]
    rfl
  · cases hcompat : options.filepackCompat with
    | true =>
      simp only [hsidecar hcompat, hmanifest, if_true]
      rfl
    | false =>
      simp only [hmanifest, Bool.false_eq_true, if_false]
      rfl

/-- A publish that fails leaves the rows as they were before the transaction exactly when the roots that
the manifest names more than once had its fingerprint already. -/
theorem failedPublish_restores_iff {s t : StorageStore} {env : FilepackEnv}
    {options : CreateFilepackOptions} {entries : List FilepackEntry} {fingerprint : String}
    {previousFps : List (Bytes32 × Option String)} (hfp : env.fingerprint entries = .ok fingerprint)
    (hwrite : env.writeManifest = .ok ())
    (hcommit : commitFilepackMetadata s fingerprint entries = .ok (previousFps, t))
    (hfails : env.PublishFails options) :
    SameRows s (publishFilepack s env options entries).2 ↔ RepeatsBound s fingerprint entries := by
  rw [publishFilepack_failed hfp hwrite hcommit hfails]
  exact sameRows_rollback_iff hcommit

/-! ### Two paths with one root -/

section

/-- The root of the examples. -/
def sharedRoot : Bytes32 := Bytes32.replicate 5

/-- A store that knows the root, with no fingerprint. -/
def sharedStore : StorageStore :=
  StorageStore.empty.putCommitment (.new sharedRoot "05.c14" 14 .inboard 1700000000)

/-- A directory whose manifest cannot be put into its place. -/
def unpublishedEnv : FilepackEnv where
  sourceDir := "bundle"
  isDir := true
  root := "bundle"
  walk := .ok []
  fingerprint _ := .ok "f00d"
  writeManifest := .ok ()
  publishSidecar := .ok ()
  publishManifest := .error "rename failed"

def sharedEntry (path : String) : FilepackEntry := ⟨path, 5, Hex.encode sharedRoot.val, 14⟩

/-- Two files with one content are left with the fingerprint of the manifest that failed. -/
theorem not_failedPublish_restores :
    ∃ previousFps t,
      commitFilepackMetadata sharedStore "f00d" [sharedEntry "a.txt", sharedEntry "b.txt"] =
          .ok (previousFps, t) ∧
        ¬SameRows sharedStore (publishFilepack sharedStore unpublishedEnv ⟨14, .inboard, none, false⟩
          [sharedEntry "a.txt", sharedEntry "b.txt"]).2 := by
  obtain ⟨⟨previousFps, t⟩, hcommit⟩ : ∃ x, commitFilepackMetadata sharedStore "f00d"
      [sharedEntry "a.txt", sharedEntry "b.txt"] = .ok x := exists_of_isOk (by decide +kernel)
  refine ⟨previousFps, t, hcommit, ?_⟩
  rw [publishFilepack_failed rfl rfl hcommit (.inr ⟨fun h => (by cases h), _, rfl⟩),
    sameRows_rollback_iff hcommit]
  intro hbound
  have hfp := hbound sharedRoot (by decide +kernel)
  revert hfp
  decide +kernel

theorem failedPublish_restores_one :
    SameRows sharedStore (publishFilepack sharedStore unpublishedEnv ⟨14, .inboard, none, false⟩
      [sharedEntry "a.txt"]).2 := by
  obtain ⟨⟨previousFps, t⟩, hcommit⟩ : ∃ x, commitFilepackMetadata sharedStore "f00d"
      [sharedEntry "a.txt"] = .ok x := exists_of_isOk (by decide +kernel)
  refine (failedPublish_restores_iff rfl rfl hcommit (.inr ⟨fun h => (by cases h), _, rfl⟩)).mpr ?_
  have hroots : entryRoots [sharedEntry "a.txt"] = [sharedRoot] := by decide +kernel
  intro r hr
  rw [hroots] at hr
  have hle : [sharedRoot].count r ≤ 1 := List.count_le_length
  omega

end

end Lord.Storage
