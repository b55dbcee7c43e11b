import Lord.Lib.History
import Lord.Ltp.Handles

/-! The queues of the mempool over any interleaving of two handles.  Whatever a handle or the file holds
was enqueued, in the order of its enqueues, with no start digest twice and no queue over its depth. -/

namespace Lord.Ltp

open Ots Runs History

/-! ### Snapshots -/

/-- The entries that the calls enqueue, in their order. -/
def enqueuedBy (calls : List (Party × Op)) : List LtpMempoolEntry :=
  calls.filterMap fun call => match call.2 with
    | .enqueue entry _ => some entry
    | _ => none

/-- The queues of a snapshot that calls have led to. -/
structure MempoolSnapshot.WellFormed (profile : ChainProfile) (calls : List (Party × Op))
    (snapshot : MempoolSnapshot) : Prop where
  own : ∀ kind, ∀ entry ∈ snapshot.queue kind, entry.queue = kind
  distinct : ∀ kind, ((snapshot.queue kind).map LtpMempoolEntry.startDigest).Nodup
  depth : ∀ kind, (snapshot.queue kind).length ≤ profile.maxDepth
  ordered : ∀ kind, List.Sublist (snapshot.queue kind) (enqueuedBy calls)

namespace MempoolSnapshot

variable {profile : ChainProfile} {calls : List (Party × Op)} {snapshot snapshot' : MempoolSnapshot}

theorem WellFormed.empty (profile : ChainProfile) (calls : List (Party × Op)) :
    MempoolSnapshot.empty.WellFormed profile calls := by
  have hqueue : ∀ kind, MempoolSnapshot.empty.queue kind = [] := by
    intro kind
    cases kind <;> rfl
  constructor <;> intro kind <;> rw [hqueue kind]
  · intro entry hentry
    cases hentry
  · exact List.nodup_nil
  · exact Nat.zero_le _
  · exact List.nil_sublist _

theorem WellFormed.append (h : snapshot.WellFormed profile calls) (call : Party × Op) :
    snapshot.WellFormed profile (calls ++ [call]) := by
  refine { h with ordered := fun kind => (h.ordered kind).trans ?_ }
  rw [enqueuedBy, enqueuedBy, List.filterMap_append]
  exact List.sublist_append_left _ _

/-- Entries may leave the queues. -/
theorem WellFormed.of_sublist (h : snapshot.WellFormed profile calls)
    (hsub : ∀ kind, List.Sublist (snapshot'.queue kind) (snapshot.queue kind)) :
    snapshot'.WellFormed profile calls where
  own kind entry hentry := h.own kind entry ((hsub kind).subset hentry)
  distinct kind := (h.distinct kind).sublist ((hsub kind).map _)
  depth kind := (hsub kind).length_le.trans (h.depth kind)
  ordered kind := (hsub kind).trans (h.ordered kind)

theorem WellFormed.setQueue (h : snapshot.WellFormed profile calls) {kind : LtpQueueKind}
    {entries : List LtpMempoolEntry} (hsub : List.Sublist entries (snapshot.queue kind)) :
    (snapshot.setQueue kind entries).WellFormed profile calls := by
  refine h.of_sublist fun other => ?_
  by_cases hother : other = kind
  · subst hother
    rw [queue_setQueue_self]
    exact hsub
  · rw [queue_setQueue_of_ne _ _ hother]

/-- A new digest may enter its queue below the depth. -/
theorem WellFormed.enqueue (h : snapshot.WellFormed profile calls) (party : Party)
    {entry : LtpMempoolEntry} (write : Result Unit)
    (hnew : ∀ e ∈ snapshot.queue entry.queue, e.startDigest ≠ entry.startDigest)
    (hdepth : (snapshot.queue entry.queue).length < profile.maxDepth) :
    (snapshot.setQueue entry.queue (snapshot.queue entry.queue ++ [entry])).WellFormed profile
      (calls ++ [(party, .enqueue entry write)]) := by
  have hkept := h.append (party, .enqueue entry write)
  have henqueued : enqueuedBy (calls ++ [(party, .enqueue entry write)]) =
      enqueuedBy calls ++ [entry] := by
    simp [enqueuedBy]
  constructor
  · intro kind e he
    by_cases hkind : kind = entry.queue
    · subst hkind
      rw [queue_setQueue_self, List.mem_append, List.mem_singleton] at he
      rcases he with he | rfl
      · exact h.own _ e he
      · rfl
    · rw [queue_setQueue_of_ne _ _ hkind] at he
      exact h.own kind e he
  · intro kind
    by_cases hkind : kind = entry.queue
    · subst hkind
      rw [queue_setQueue_self, List.map_append, List.nodup_append]
      refine ⟨h.distinct _, List.nodup_singleton _, ?_⟩
      rintro digest hdigest other hother rfl
      obtain ⟨e, he, rfl⟩ := List.mem_map.mp hdigest
      exact hnew e he (List.mem_singleton.mp hother)
    · rw [queue_setQueue_of_ne _ _ hkind]
      exact h.distinct kind
  · intro kind
    by_cases hkind : kind = entry.queue
    · subst hkind
      rw [queue_setQueue_self, List.length_append]
      exact hdepth
    · rw [queue_setQueue_of_ne _ _ hkind]
      exact h.depth kind
  · intro kind
    by_cases hkind : kind = entry.queue
    · subst hkind
      rw [queue_setQueue_self, henqueued]
      exact (h.ordered _).append (List.Sublist.refl _)
    · rw [queue_setQueue_of_ne _ _ hkind]
      exact hkept.ordered kind

end MempoolSnapshot

/-! ### One operation -/

/-- A handle and the file beside it. -/
structure HandleSound (profile : ChainProfile) (calls : List (Party × Op))
    (after : LtpMempool × MempoolFile) : Prop where
  profile_eq : after.1.profile = profile
  snapshot : after.1.snapshot.WellFormed profile calls
  file : ∀ snapshot, after.2 = some snapshot → snapshot.WellFormed profile calls

section

variable {profile : ChainProfile} {calls : List (Party × Op)} {mempool : LtpMempool}
  {file : MempoolFile}

theorem HandleSound.append (h : HandleSound profile calls (mempool, file)) (call : Party × Op) :
    HandleSound profile (calls ++ [call]) (mempool, file) :=
  ⟨h.profile_eq, h.snapshot.append call, fun snapshot hfile => (h.file snapshot hfile).append call⟩

/-- A save replaces the snapshot, and the file by it or not at all. -/
theorem HandleSound.save {α : Type} (h : HandleSound profile calls (mempool, file))
    {snapshot : MempoolSnapshot} (hsnapshot : snapshot.WellFormed profile calls) (result : α)
    (write : Result Unit) :
    HandleSound profile calls (mempool.save snapshot result write file).2 := by
  unfold LtpMempool.save
  split
  · refine ⟨h.profile_eq, hsnapshot, ?_⟩
    rintro _ ⟨⟩
    exact hsnapshot
  · exact ⟨h.profile_eq, hsnapshot, h.file⟩

theorem HandleSound.enqueue (h : HandleSound profile calls (mempool, file)) (party : Party)
    (entry : LtpMempoolEntry) (write : Result Unit) :
    HandleSound profile (calls ++ [(party, .enqueue entry write)])
      (mempool.enqueue entry write file).2 := by
  have hkept := h.append (party, .enqueue entry write)
  unfold LtpMempool.enqueue
  dsimp only
  split
  · exact hkept
  rename_i hnew
  split
  · exact hkept
  rename_i hdepth
  refine hkept.save (h.snapshot.enqueue party write (fun e he heq => hnew ?_) ?_) true write
  · exact List.any_eq_true.mpr ⟨e, he, decide_eq_true heq⟩
  · rw [← h.profile_eq]
    exact Nat.lt_of_not_le hdepth

theorem HandleSound.drain (h : HandleSound profile calls (mempool, file)) (queue : LtpQueueKind)
    (max : Nat) (write : Result Unit) :
    HandleSound profile calls (mempool.drain queue max write file).2 := by
  unfold LtpMempool.drain
  dsimp only
  split
  · exact h
  · exact h.save (h.snapshot.setQueue (List.drop_sublist _ _)) _ write

theorem HandleSound.removeStartDigest (h : HandleSound profile calls (mempool, file))
    (queue : LtpQueueKind) (startDigest : Bytes32) (write : Result Unit) :
    HandleSound profile calls (mempool.removeStartDigest queue startDigest write file).2 := by
  unfold LtpMempool.removeStartDigest
  dsimp only
  split
  · exact h.save (h.snapshot.setQueue (List.eraseIdx_sublist _ _)) _ write
  · exact h

theorem HandleSound.pruneExpired (h : HandleSound profile calls (mempool, file)) (now : Result Nat)
    (write : Result Unit) :
    HandleSound profile calls (mempool.pruneExpired now write file).2 := by
  unfold LtpMempool.pruneExpired
  split
  · exact h
  rename_i time hnow
  dsimp only
  split
  · refine h.save (h.snapshot.of_sublist fun kind => ?_) _ write
    rw [MempoolSnapshot.queue_retain]
    exact List.filter_sublist
  · exact h

end

/-! ### Runs -/

/-- The file and the open handles. -/
structure SharedSound (profile : ChainProfile) (calls : List (Party × Op)) (s : Shared) : Prop where
  file : ∀ snapshot, s.file = some snapshot → snapshot.WellFormed profile calls
  handle : ∀ party mempool, s.handle party = some mempool →
    mempool.profile = profile ∧ mempool.snapshot.WellFormed profile calls

section

variable {profile : ChainProfile} {calls : List (Party × Op)} {s : Shared}

theorem SharedSound.append (h : SharedSound profile calls s) (call : Party × Op) :
    SharedSound profile (calls ++ [call]) s where
  file snapshot hfile := (h.file snapshot hfile).append call
  handle party mempool hhandle :=
    ⟨(h.handle party mempool hhandle).1, (h.handle party mempool hhandle).2.append call⟩

theorem SharedSound.handleSound (h : SharedSound profile calls s) {party : Party} {mempool : LtpMempool}
    (hhandle : s.handle party = some mempool) : HandleSound profile calls (mempool, s.file) :=
  ⟨(h.handle party mempool hhandle).1, (h.handle party mempool hhandle).2, h.file⟩

theorem SharedSound.ended (h : SharedSound profile calls s) (party : Party)
    {after : LtpMempool × MempoolFile} (hafter : HandleSound profile calls after)
    (due : List LtpMempoolEntry) : SharedSound profile calls (s.ended party after due) := by
  refine ⟨hafter.file, fun other mempool hother => ?_⟩
  change Function.update s.handle party (some after.1) other = some mempool at hother
  by_cases hsame : other = party
  · subst hsame
    rw [Function.update_self] at hother
    cases hother
    exact ⟨hafter.profile_eq, hafter.snapshot⟩
  · rw [Function.update_of_ne hsame] at hother
    exact h.handle other mempool hother

theorem SharedSound.openFile {path : String} {chain : LtpChain}
    (h : SharedSound (chainProfile chain) calls s) (party : Party) {read : Result Unit}
    {mempool : LtpMempool} (hopen : LtpMempool.openFile path chain s.file read = .ok mempool) :
    SharedSound (chainProfile chain) calls
      { s with handle := Function.update s.handle party (some mempool) } := by
  have hmempool : HandleSound (chainProfile chain) calls (mempool, s.file) := by
    unfold LtpMempool.openFile at hopen
    split at hopen
    · cases hopen
      exact ⟨rfl, .empty _ _, h.file⟩
    · rename_i snapshot hfile
      obtain ⟨⟨⟩, -, hopen⟩ := bind_eq_ok.mp hopen
      cases hopen
      exact ⟨rfl, h.file snapshot hfile, h.file⟩
  exact h.ended party hmempool s.due

theorem SharedSound.step {path : String} {chain : LtpChain}
    (h : SharedSound (chainProfile chain) calls s) (call : Party × Op) :
    SharedSound (chainProfile chain) (calls ++ [call]) (s.step path chain call) := by
  have hkept := h.append call
  obtain ⟨party, op⟩ := call
  cases hhandle : s.handle party with
  | none =>
    cases op with
    | openFile read =>
      simp only [Shared.step]
      split
      · rename_i mempool hopen
        exact hkept.openFile party hopen
      · exact hkept
    | enqueue entry write => simpa only [Shared.step, hhandle] using hkept
    | drain queue max write => simpa only [Shared.step, hhandle] using hkept
    | removeStartDigest queue startDigest write => simpa only [Shared.step, hhandle] using hkept
    | pruneExpired now write => simpa only [Shared.step, hhandle] using hkept
  | some mempool =>
    have hsound := hkept.handleSound hhandle
    cases op with
    | openFile read =>
      simp only [Shared.step]
      split
      · rename_i opened hopen
        exact hkept.openFile party hopen
      · exact hkept
    | enqueue entry write =>
      simp only [Shared.step, hhandle, Shared.enqueued]
      have hafter := (h.handleSound hhandle).enqueue party entry write
      split
      · rename_i after hrun
        rw [hrun] at hafter
        exact hkept.ended party hafter _
      · rename_i result after _ hrun
        rw [hrun] at hafter
        exact hkept.ended party hafter _
    | drain queue max write =>
      simp only [Shared.step, hhandle, Shared.drained]
      have hafter := hsound.drain queue max write
      split
      · rename_i entries after hrun
        rw [hrun] at hafter
        exact hkept.ended party hafter _
      · rename_i err after hrun
        rw [hrun] at hafter
        exact hkept.ended party hafter _
    | removeStartDigest queue startDigest write =>
      simp only [Shared.step, hhandle, Shared.removed]
      have hafter := hsound.removeStartDigest queue startDigest write
      split
      · rename_i after hrun
        rw [hrun] at hafter
        exact hkept.ended party hafter _
      · rename_i result after _ hrun
        rw [hrun] at hafter
        exact hkept.ended party hafter _
    | pruneExpired now write =>
      simp only [Shared.step, hhandle, Shared.pruned]
      exact hkept.ended party (hsound.pruneExpired now write) _

/-- The priority list of a sound handle: its commitment queue by priority and age, with no digest twice. -/
theorem commitmentStartDigests_sorted {mempool : LtpMempool}
    (h : mempool.snapshot.WellFormed profile calls) :
    mempool.commitmentStartDigests.Nodup ∧ ∃ entries : List LtpMempoolEntry,
      entries.Perm mempool.snapshot.commitment ∧
      entries.Pairwise (fun left right => LtpMempool.before left right = true) ∧
      mempool.commitmentStartDigests = entries.map LtpMempoolEntry.startDigest := by
  have hperm : (mempool.snapshot.commitment.mergeSort LtpMempool.before).Perm
      mempool.snapshot.commitment := List.mergeSort_perm _ _
  refine ⟨(hperm.map _).nodup_iff.mpr (h.distinct .commitment), _, hperm, ?_, rfl⟩
  refine List.pairwise_mergeSort (fun a b c => ?_) (fun a b => ?_) _
  · unfold LtpMempool.before
    simp only [Bool.or_eq_true, Bool.and_eq_true, decide_eq_true_eq, beq_iff_eq]
    intro hab hbc
    rcases hab with hab | ⟨hab, htime⟩
    · rcases hbc with hbc | ⟨hbc, -⟩
      · exact .inl (UInt32.lt_trans hbc hab)
      · exact .inl (hbc ▸ hab)
    · rcases hbc with hbc | ⟨hbc, htime'⟩
      · exact .inl (hab ▸ hbc)
      · exact .inr ⟨hbc.trans hab, UInt64.le_trans htime htime'⟩
  · unfold LtpMempool.before
    simp only [Bool.or_eq_true, Bool.and_eq_true, decide_eq_true_eq, beq_iff_eq]
    rcases Nat.lt_trichotomy a.priority.toNat b.priority.toNat with hlt | heq | hlt
    · exact .inr (.inl (UInt32.lt_iff_toNat_lt.mpr hlt))
    · have hsame : a.priority = b.priority := UInt32.toNat_inj.mp heq
      rcases UInt64.le_total a.enqueuedAt b.enqueuedAt with htime | htime
      · exact .inl (.inr ⟨hsame.symm, htime⟩)
      · exact .inr (.inr ⟨hsame, htime⟩)
    · exact .inl (.inl (UInt32.lt_iff_toNat_lt.mpr hlt))

/-- In every interleaving of two handles on a file that was not there, the queues of the file and of each
handle hold what was enqueued, in that order, each digest once and no more than the depth; and the
priority list of a handle is its commitment queue, by priority and then by age. -/
theorem mempool_sound (path : String) (chain : LtpChain) (calls : List (Party × Op)) :
    SharedSound (chainProfile chain) calls
        (run (Shared.step path chain) (Shared.start none) calls) ∧
      ∀ party mempool, (run (Shared.step path chain) (Shared.start none) calls).handle party =
          some mempool →
        mempool.commitmentStartDigests.Nodup ∧ ∃ entries : List LtpMempoolEntry,
          entries.Perm mempool.snapshot.commitment ∧
          entries.Pairwise (fun left right => LtpMempool.before left right = true) ∧
          mempool.commitmentStartDigests = entries.map LtpMempoolEntry.startDigest := by
  have hstart : SharedSound (chainProfile chain) [] (Shared.start none) := by
    constructor
    · rintro snapshot ⟨⟩
    · rintro party mempool ⟨⟩
  have hsound : SharedSound (chainProfile chain) calls
      (run (Shared.step path chain) (Shared.start none) calls) :=
    run_induction hstart (fun _ call h => h.step call) calls
  exact ⟨hsound, fun party mempool hhandle =>
    commitmentStartDigests_sorted (hsound.handle party mempool hhandle).2⟩

end

end Lord.Ltp
