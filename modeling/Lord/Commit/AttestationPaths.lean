import Lord.Commit.OtsAttest
import Mathlib.Data.List.Lex

/-! Attestation verification over whole proof trees.  A path names a leaf by the child taken at each
step, so paths from one tree are compared lexicographically and the least is the leftmost.  The
status is confirmed exactly when some path confirms, and is in every case the first of greatest
precedence among the verdicts of the leaves. -/

namespace Lord.Commit

open Ots Precedence AttestationVerifyStatus

variable [Digests] {source : BlockHeaderSource}

/-- The path from a step with a running digest leads to a Bitcoin attestation of `height` whose
block has that digest as its merkle root, and every output on the path is the running digest. -/
inductive ConfirmingPath (source : BlockHeaderSource) :
    Step → Bytes → List Nat → UInt32 → Prop
  | attestation {digest : Bytes} {height : UInt64} {root : Bytes32} {next : List Step} :
      height.toNat < 2 ^ 32 → source.merkleRootAtHeight height.toUInt32 = .ok (some root) →
      root.val = digest →
      ConfirmingPath source (.mk (.attestation (.bitcoin height)) digest next) digest []
        height.toUInt32
  | fork {digest : Bytes} {next : List Step} {i : Nat} {child : Step} {path : List Nat}
      {height : UInt32} :
      next[i]? = some child → ConfirmingPath source child digest path height →
      ConfirmingPath source (.mk .fork digest next) digest (i :: path) height
  | op {op : Op} {digest output : Bytes} {next : List Step} {child : Step} {path : List Nat}
      {height : UInt32} :
      output = op.execute digest → next.head? = some child →
      ConfirmingPath source child output path height →
      ConfirmingPath source (.mk (.op op) output next) digest (0 :: path) height

/-- `path` is the leftmost confirming path, and `height` is what it confirms. -/
def LeftmostConfirms (source : BlockHeaderSource) (step : Step) (digest : Bytes) (height : UInt32) :
    Prop :=
  ∃ path, ConfirmingPath source step digest path height ∧
    ∀ other h, ConfirmingPath source step digest other h → path ≤ other

/-- The height is a function of the path. -/
theorem ConfirmingPath.unique {step : Step} {digest : Bytes} {path : List Nat} {h k : UInt32}
    (left : ConfirmingPath source step digest path h)
    (right : ConfirmingPath source step digest path k) : h = k := by
  induction left with
  | attestation => cases right; rfl
  | fork hchild _ ih =>
    cases right with
    | fork hchild' hpath =>
      rw [hchild] at hchild'
      cases hchild'
      exact ih hpath
  | op _ hchild _ ih =>
    cases right with
    | op _ hchild' hpath =>
      rw [hchild] at hchild'
      cases hchild'
      exact ih hpath

theorem LeftmostConfirms.unique {step : Step} {digest : Bytes} {h k : UInt32}
    (left : LeftmostConfirms source step digest h)
    (right : LeftmostConfirms source step digest k) : h = k := by
  obtain ⟨p, hp, hleast⟩ := left
  obtain ⟨q, hq, hleast'⟩ := right
  obtain rfl : p = q := le_antisymm (hleast q k hq) (hleast' p h hp)
  exact hp.unique hq

omit [Digests] in
theorem tryU32_eq_some {height : UInt64} {h : UInt32} :
    tryU32 height = some h ↔ height.toNat < 2 ^ 32 ∧ height.toUInt32 = h := by
  unfold tryU32
  split
  · rename_i hlt
    simp only [Option.some.injEq, hlt, true_and]
  · rename_i hge
    simp only [reduceCtorEq, hge, false_and]

omit [Digests] in
theorem verifyAttestation_confirmed {digest : Bytes} {attestation : Attestation} {h : UInt32} :
    verifyAttestation digest attestation source = .ok (confirmed h) ↔
      ∃ height root, attestation = .bitcoin height ∧ height.toNat < 2 ^ 32 ∧
        height.toUInt32 = h ∧ source.merkleRootAtHeight h = .ok (some root) ∧
        root.val = digest := by
  cases attestation with
  | pending uri => simp [verifyAttestation]
  | unknown tag data => simp [verifyAttestation]
  | bitcoin height =>
    constructor
    · intro hok
      simp only [verifyAttestation] at hok
      cases hh : tryU32 height with
      | none => simp [hh] at hok
      | some k =>
        obtain ⟨hlt, rfl⟩ := tryU32_eq_some.mp hh
        simp only [hh] at hok
        split at hok
        · rename_i root hroot
          split at hok
          · rename_i hdigest
            cases hok
            exact ⟨height, root, rfl, hlt, rfl, hroot, hdigest.symm⟩
          · cases hok
        · cases hok
        · cases hok
    · rintro ⟨_, root, ⟨⟩, hlt, rfl, hroot, rfl⟩
      simp [verifyAttestation, tryU32_eq_some.mpr ⟨hlt, rfl⟩, hroot]

/-! ### Joining the branches of a fork -/

section

omit [Digests]

/-- Confirmed > Unknown > Pending > Failed > Unavailable > None. -/
def AttestationVerifyStatus.precedence : AttestationVerifyStatus → Nat
  | none => 0
  | unavailable _ => 1
  | failed _ => 2
  | pending => 3
  | unknown => 4
  | confirmed _ => 5

theorem precedence_le (status : AttestationVerifyStatus) : status.precedence ≤ 5 := by
  cases status <;> simp [precedence]

theorem isConfirmed_iff (status : AttestationVerifyStatus) :
    status.isConfirmed = true ↔ status.precedence = 5 := by
  cases status <;> simp [isConfirmed, precedence]

theorem isFailed_iff (status : AttestationVerifyStatus) :
    status.isFailed = true ↔ status.precedence = 2 := by
  cases status <;> simp [isFailed, precedence]

theorem isUnavailable_iff (status : AttestationVerifyStatus) :
    status.isUnavailable = true ↔ status.precedence = 1 := by
  cases status <;> simp [isUnavailable, precedence]

theorem eq_unknown_iff (status : AttestationVerifyStatus) :
    status = unknown ↔ status.precedence = 4 := by
  cases status <;> simp [precedence]

theorem eq_pending_iff (status : AttestationVerifyStatus) :
    status = pending ↔ status.precedence = 3 := by
  cases status <;> simp [precedence]

theorem eq_none_iff (status : AttestationVerifyStatus) :
    status = .none ↔ status.precedence = 0 := by
  cases status <;> simp [precedence]

/-- A bound that no branch attains can be lowered. -/
theorem precedence_lower {statuses : List AttestationVerifyStatus} {k : Nat}
    (hle : ∀ w ∈ statuses, w.precedence ≤ k + 1) (hne : ∀ w ∈ statuses, w.precedence ≠ k + 1) :
    ∀ w ∈ statuses, w.precedence ≤ k := by
  intro w hw
  have := hle w hw
  have := hne w hw
  omega

/-- A fork with a branch takes the first status of greatest precedence. -/
theorem aggregateForkStatuses_isFirstMax {statuses : List AttestationVerifyStatus}
    (hne : statuses ≠ []) :
    IsFirstMax precedence statuses (aggregateForkStatuses statuses) := by
  unfold aggregateForkStatuses
  -- Each test that fails lowers the bound on the precedence of the branches by one.
  have hle5 : ∀ w ∈ statuses, w.precedence ≤ 5 := fun w _ => precedence_le w
  split
  · rename_i status hfind
    exact .of_find? (fun w _ => isConfirmed_iff w) hfind hle5
  rename_i hconfirmed
  have hle4 := precedence_lower hle5 fun w hw h =>
    List.find?_eq_none.mp hconfirmed w hw ((isConfirmed_iff w).mpr h)
  split
  · rename_i hunknown
    exact .of_mem hunknown hle4 fun w _ h => (eq_unknown_iff w).mpr h
  rename_i hunknown
  have hle3 := precedence_lower hle4 fun w hw h => hunknown ((eq_unknown_iff w).mpr h ▸ hw)
  split
  · rename_i hpending
    exact .of_mem hpending hle3 fun w _ h => (eq_pending_iff w).mpr h
  rename_i hpending
  have hle2 := precedence_lower hle3 fun w hw h => hpending ((eq_pending_iff w).mpr h ▸ hw)
  split
  · rename_i status hfind
    exact .of_find? (fun w _ => isFailed_iff w) hfind hle2
  rename_i hfailed
  have hle1 := precedence_lower hle2 fun w hw h =>
    List.find?_eq_none.mp hfailed w hw ((isFailed_iff w).mpr h)
  split
  · rename_i status hfind
    exact .of_find? (fun w _ => isUnavailable_iff w) hfind hle1
  rename_i hunavailable
  have hle0 := precedence_lower hle1 fun w hw h =>
    List.find?_eq_none.mp hunavailable w hw ((isUnavailable_iff w).mpr h)
  obtain ⟨w, hw⟩ := List.exists_mem_of_ne_nil statuses hne
  have hmem : AttestationVerifyStatus.none ∈ statuses := by
    have hw0 : w.precedence = 0 := by
      have := hle0 w hw
      omega
    exact (eq_none_iff w).mpr hw0 ▸ hw
  exact .of_mem hmem hle0 fun w _ h => (eq_none_iff w).mpr h

end

/-! ### The verdicts of the leaves -/

mutual

/-- The verdict of each leaf of the tree, left to right.  A step that does not fit the running
digest, or an operation without a successor, is a failed leaf, and a fork without a branch is a
leaf without an attestation. -/
def leafVerdicts (source : BlockHeaderSource) : Step → Bytes → List AttestationVerifyStatus
  | .mk (.attestation attestation) output _, digest =>
    if output = digest then
      [branchStatus (verifyAttestation digest attestation source)]
    else
      [failed "attestation step output does not match expected digest"]
  | .mk .fork output next, digest =>
    if output = digest then
      match next with
      | [] => [.none]
      | child :: rest => leafVerdicts source child digest ++ leafVerdictsList source rest digest
    else
      [failed "fork step output does not match expected digest"]
  | .mk (.op op) output next, digest =>
    if output = op.execute digest then
      match next with
      | [] => [failed "timestamp op step missing successor"]
      | child :: _ => leafVerdicts source child output
    else
      [failed "op step output does not match executed digest"]

def leafVerdictsList (source : BlockHeaderSource) :
    List Step → Bytes → List AttestationVerifyStatus
  | [], _ => []
  | child :: rest, digest => leafVerdicts source child digest ++ leafVerdictsList source rest digest

end

theorem leafVerdictsList_eq_flatMap (source : BlockHeaderSource) (next : List Step)
    (digest : Bytes) :
    leafVerdictsList source next digest =
      next.flatMap fun child => leafVerdicts source child digest := by
  induction next with
  | nil => rfl
  | cons child rest ih => simp [leafVerdictsList, ih]

theorem leafVerdicts_fork {output digest : Bytes} {next : List Step} (houtput : output = digest)
    (hne : next ≠ []) : leafVerdicts source (.mk .fork output next) digest =
      next.flatMap fun child => leafVerdicts source child digest := by
  cases next with
  | nil => exact absurd rfl hne
  | cons child rest => simp [leafVerdicts, houtput, leafVerdictsList_eq_flatMap]

/-- The status of a tree is the first of greatest precedence among the verdicts of its leaves,
however its forks are nested. -/
theorem verifyStep_isFirstMax (source : BlockHeaderSource) (step : Step) (digest : Bytes) :
    IsFirstMax precedence (leafVerdicts source step digest)
      (branchStatus (verifyStep source step digest)) := by
  induction step generalizing digest with
  | mk data output next ih =>
    cases data with
    | attestation attestation =>
      by_cases houtput : output = digest
      · simpa [leafVerdicts, verifyStep, houtput] using .singleton _ _
      · simpa [leafVerdicts, verifyStep, houtput, branchStatus] using .singleton _ _
    | op op =>
      cases next with
      | nil => by_cases houtput : output = op.execute digest <;>
          simpa [leafVerdicts, verifyStep, houtput, branchStatus] using .singleton _ _
      | cons child rest =>
        by_cases houtput : output = op.execute digest
        · simpa [leafVerdicts, verifyStep, houtput] using ih child (by simp) (op.execute digest)
        · simpa [leafVerdicts, verifyStep, houtput, branchStatus] using .singleton _ _
    | fork =>
      cases next with
      | nil => by_cases houtput : output = digest <;>
          simpa [leafVerdicts, verifyStep, houtput, branchStatus] using .singleton _ _
      | cons child rest =>
        by_cases houtput : output = digest
        · rw [leafVerdicts_fork houtput (by simp)]
          have hstatus : branchStatus (verifyStep source (.mk .fork output (child :: rest)) digest) =
              aggregateForkStatuses
                ((child :: rest).map fun c => branchStatus (verifyStep source c digest)) := by
            simp [verifyStep, houtput, branchStatus, branchStatuses_eq_map]
          rw [hstatus]
          exact .flatMap (fun c hc => ih c hc digest) (aggregateForkStatuses_isFirstMax (by simp))
        · simpa [leafVerdicts, verifyStep, houtput, branchStatus] using .singleton _ _

/-! ### Confirming paths -/

omit [Digests] in
theorem branchStatus_eq_confirmed {result : Result AttestationVerifyStatus} {h : UInt32} :
    branchStatus result = confirmed h ↔ result = .ok (confirmed h) := by
  cases result <;> simp [branchStatus]

/-- What a fork inherits from its branches: the first branch that confirms gives the leftmost path,
and without one no path confirms. -/
theorem aggregate_leftmost {next : List Step} {digest : Bytes}
    (hnext : ∀ child ∈ next, ∀ h,
      branchStatus (verifyStep source child digest) = confirmed h →
        LeftmostConfirms source child digest h)
    (hnone : ∀ child ∈ next,
      (branchStatus (verifyStep source child digest)).isConfirmed = false →
        ∀ path h, ¬ConfirmingPath source child digest path h)
    {status : AttestationVerifyStatus}
    (hstatus : status = aggregateForkStatuses
      (next.map fun child => branchStatus (verifyStep source child digest))) :
    (∀ h, status = confirmed h → LeftmostConfirms source (.mk .fork digest next) digest h) ∧
      (status.isConfirmed = false →
        ∀ path h, ¬ConfirmingPath source (.mk .fork digest next) digest path h) := by
  cases hfind : (next.map fun child => branchStatus (verifyStep source child digest)).find?
      isConfirmed with
  | some first =>
    have hfirst : status = first := by rw [hstatus, aggregateForkStatuses, hfind]
    obtain ⟨hconfirmed, before, after, hmap, hbefore⟩ := List.find?_eq_some_iff_append.mp hfind
    obtain ⟨front, rest, rfl, rfl, hrest⟩ := List.map_eq_append_iff.mp hmap
    obtain ⟨child, back, rfl, rfl, rfl⟩ := List.map_eq_cons_iff.mp hrest
    refine ⟨?_, fun h => absurd hconfirmed (by rw [← hfirst, h]; simp)⟩
    intro h hh
    obtain ⟨path, hpath, hleast⟩ := hnext child (by simp) h (hfirst ▸ hh)
    refine ⟨front.length :: path, .fork (by simp) hpath, ?_⟩
    intro other k hother
    cases hother with
    | fork hchild hrest =>
      rename_i i _ tail
      rcases Nat.lt_trichotomy front.length i with hlt | heq | hgt
      · exact le_of_lt (List.Lex.rel hlt)
      · subst heq
        simp at hchild
        subst hchild
        exact List.cons_le_cons _ (hleast _ _ hrest)
      · -- A branch in front of the first confirmed one has no confirming path.
        have hmem : front[i] ∈ front := List.getElem_mem hgt
        rw [List.getElem?_append_left hgt, List.getElem?_eq_getElem hgt] at hchild
        cases hchild
        have hnot := hbefore _ (List.mem_map_of_mem hmem)
        exact absurd hrest (hnone front[i] (by simp) (by simpa using hnot) _ _)
  | none =>
    have hall : ∀ child ∈ next,
        (branchStatus (verifyStep source child digest)).isConfirmed = false := by
      intro child hchild
      simpa using List.find?_eq_none.mp hfind _ (List.mem_map_of_mem hchild)
    constructor
    · intro h hh
      exfalso
      by_cases hnil : next = []
      · subst hnil
        rw [hstatus] at hh
        simp [aggregateForkStatuses] at hh
      · have hmem : status ∈ next.map fun c => branchStatus (verifyStep source c digest) := by
          rw [hstatus]
          exact (aggregateForkStatuses_isFirstMax (mt List.map_eq_nil_iff.mp hnil)).mem
        rw [hh] at hmem
        obtain ⟨child, hchild, heq⟩ := List.mem_map.mp hmem
        have := hall child hchild
        rw [heq] at this
        cases this
    · intro _ path h hpath
      cases hpath with
      | fork hchild hrest =>
        have hmem := List.mem_of_getElem? hchild
        exact hnone _ hmem (hall _ hmem) _ _ hrest

theorem verifyStep_op_mismatch {op : Op} {output digest : Bytes} {next : List Step}
    (h : output ≠ op.execute digest) : verifyStep source (.mk (.op op) output next) digest =
      .error "op step output does not match executed digest" := by
  cases next <;> simp [verifyStep, h]

/-- A tree is confirmed at a height by its leftmost confirming path, and a tree that is not
confirmed has no confirming path. -/
theorem verifyStep_leftmost (source : BlockHeaderSource) (step : Step) (digest : Bytes) :
    (∀ h, branchStatus (verifyStep source step digest) = confirmed h →
        LeftmostConfirms source step digest h) ∧
      ((branchStatus (verifyStep source step digest)).isConfirmed = false →
        ∀ path h, ¬ConfirmingPath source step digest path h) := by
  induction step generalizing digest with
  | mk data output next ih =>
    cases data with
    | attestation attestation =>
      by_cases houtput : output = digest
      · subst houtput
        have hstep : verifyStep source (.mk (.attestation attestation) output next) output =
            verifyAttestation output attestation source := by simp [verifyStep]
        rw [hstep]
        constructor
        · intro h hh
          obtain ⟨height, root, rfl, hlt, rfl, hroot, hdigest⟩ :=
            verifyAttestation_confirmed.mp (branchStatus_eq_confirmed.mp hh)
          exact ⟨[], .attestation hlt hroot hdigest, fun other _ _ => not_lt.mp (List.not_lt_nil other)⟩
        · intro hnot path h hpath
          cases hpath with
          | attestation hlt hroot hdigest =>
            rw [verifyAttestation_confirmed.mpr ⟨_, _, rfl, hlt, rfl, hroot, hdigest⟩] at hnot
            cases hnot
      · simp only [verifyStep, ne_eq, houtput, not_false_eq_true, if_true, branchStatus]
        refine ⟨fun h hh => (by cases hh), ?_⟩
        intro _ path h hpath
        cases hpath
        exact houtput rfl
    | op op =>
      by_cases houtput : output = op.execute digest
      · cases next with
        | nil =>
          simp only [verifyStep, ne_eq, houtput, not_true_eq_false, if_false, branchStatus]
          refine ⟨fun h hh => (by cases hh), ?_⟩
          intro _ path h hpath
          cases hpath with
          | op _ hchild _ => cases hchild
        | cons child rest =>
          have hstep : verifyStep source (.mk (.op op) output (child :: rest)) digest =
              verifyStep source child output := by simp [verifyStep, houtput]
          rw [hstep]
          obtain ⟨hleft, hnone⟩ := ih child (by simp) output
          constructor
          · intro h hh
            obtain ⟨path, hpath, hleast⟩ := hleft h hh
            refine ⟨0 :: path, .op houtput rfl hpath, ?_⟩
            intro other k hother
            cases hother with
            | op _ hchild hrest =>
              cases hchild
              exact List.cons_le_cons _ (hleast _ _ hrest)
          · intro hnot path h hpath
            cases hpath with
            | op _ hchild hrest =>
              cases hchild
              exact hnone hnot _ _ hrest
      · rw [verifyStep_op_mismatch houtput]
        refine ⟨fun h hh => (by cases hh), ?_⟩
        intro _ path h hpath
        cases hpath with
        | op heq _ _ => exact houtput heq
    | fork =>
      by_cases houtput : output = digest
      · subst houtput
        refine aggregate_leftmost (fun child hchild => (ih child hchild output).1)
          (fun child hchild => (ih child hchild output).2) ?_
        cases next with
        | nil => simp [verifyStep, branchStatus, aggregateForkStatuses]
        | cons child rest => simp [verifyStep, branchStatus, branchStatuses_eq_map]
      · simp only [verifyStep, ne_eq, houtput, not_false_eq_true, if_true, branchStatus]
        refine ⟨fun h hh => (by cases hh), ?_⟩
        intro _ path h hpath
        cases hpath
        exact houtput rfl

/-- A timestamp is confirmed at a height exactly when its leftmost confirming path confirms it. -/
theorem verifyTimestampAttestations_confirmed {timestamp : Timestamp} {h : UInt32} :
    verifyTimestampAttestations timestamp source = confirmed h ↔
      LeftmostConfirms source timestamp.firstStep timestamp.startDigest h := by
  obtain ⟨hleft, hnone⟩ := verifyStep_leftmost source timestamp.firstStep timestamp.startDigest
  refine ⟨hleft h, fun hpath => ?_⟩
  cases hstatus : branchStatus (verifyStep source timestamp.firstStep timestamp.startDigest) with
  | confirmed k => rw [verifyTimestampAttestations, hstatus, hpath.unique (hleft k hstatus)]
  | none | pending | failed _ | unavailable _ | unknown =>
    obtain ⟨path, hpath, -⟩ := hpath
    exact absurd hpath (hnone (by rw [hstatus]; rfl) path h)

/-- Attestation verification over whole trees.  The status is confirmed at a height exactly when
the leftmost confirming path confirms that height.  Without a confirming path it is the first of
greatest precedence among the verdicts of the leaves, none of which is a confirmation.  It depends
on the tree only through these verdicts, so not on how forks are nested. -/
theorem verifyTimestampAttestations_spec (timestamp : Timestamp) (source : BlockHeaderSource) :
    (∀ h, verifyTimestampAttestations timestamp source = confirmed h ↔
      LeftmostConfirms source timestamp.firstStep timestamp.startDigest h) ∧
    ((∀ path h, ¬ConfirmingPath source timestamp.firstStep timestamp.startDigest path h) →
      IsFirstMax precedence (leafVerdicts source timestamp.firstStep timestamp.startDigest)
        (verifyTimestampAttestations timestamp source) ∧
      ∀ status ∈ leafVerdicts source timestamp.firstStep timestamp.startDigest,
        status.isConfirmed = false) ∧
    ∀ other : Timestamp,
      leafVerdicts source other.firstStep other.startDigest =
        leafVerdicts source timestamp.firstStep timestamp.startDigest →
      verifyTimestampAttestations other source = verifyTimestampAttestations timestamp source := by
  obtain ⟨hleft, -⟩ := verifyStep_leftmost source timestamp.firstStep timestamp.startDigest
  have hmax := verifyStep_isFirstMax source timestamp.firstStep timestamp.startDigest
  refine ⟨fun h => verifyTimestampAttestations_confirmed, ?_, ?_⟩
  · intro hno
    refine ⟨hmax, ?_⟩
    intro status hmem
    cases status with
    | confirmed k =>
      -- A confirmation has the greatest precedence, so the whole tree would be confirmed.
      have hle := hmax.le hmem
      have hconfirmed := le_antisymm (precedence_le _) hle
      cases hstatus : branchStatus
          (verifyStep source timestamp.firstStep timestamp.startDigest) with
      | confirmed k =>
        obtain ⟨path, hpath, -⟩ := hleft k hstatus
        exact absurd hpath (hno path k)
      | none | pending | failed _ | unavailable _ | unknown =>
        rw [hstatus] at hconfirmed
        cases hconfirmed
    | none | pending | failed _ | unavailable _ | unknown => rfl
  · intro other hsame
    have hother := verifyStep_isFirstMax source other.firstStep other.startDigest
    rw [hsame] at hother
    exact hother.unique hmax

end Lord.Commit
