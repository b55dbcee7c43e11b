import Lord.Lib.Runs
import Lord.Ltp.Mempool

/-! Two handles on one mempool file.  Each rewrites the file with its own snapshot, so an entry that the
other one enqueued stays only when it stands in the snapshot too. -/

namespace Lord.Ltp

open Ots Runs

/-- The handle of the upgrade path and that of the anchor worker. -/
inductive Party where
  | upgrade
  | worker
  deriving Repr, DecidableEq

/-- An operation, with what it takes from outside: the read or the write of the file, and the clock. -/
inductive Op where
  | openFile (read : Result Unit)
  | enqueue (entry : LtpMempoolEntry) (write : Result Unit)
  | drain (queue : LtpQueueKind) (max : Nat) (write : Result Unit)
  | removeStartDigest (queue : LtpQueueKind) (startDigest : Bytes32) (write : Result Unit)
  | pruneExpired (now : Result Nat) (write : Result Unit)

/-- The file, the open handles, and the entries that are due: those that were enqueued, and since then
neither drained nor removed nor expired. -/
structure Shared where
  file : MempoolFile
  handle : Party → Option LtpMempool
  due : List LtpMempoolEntry

/-- No handle is open, and no entry is due. -/
def Shared.start (file : MempoolFile) : Shared := ⟨file, fun _ => none, []⟩

namespace Shared

/-- The state after an operation of a party on its handle. -/
def ended (s : Shared) (party : Party) (after : LtpMempool × MempoolFile)
    (due : List LtpMempoolEntry) : Shared :=
  ⟨after.2, Function.update s.handle party (some after.1), due⟩

def enqueued (s : Shared) (party : Party) (mempool : LtpMempool) (entry : LtpMempoolEntry)
    (write : Result Unit) : Shared :=
  match mempool.enqueue entry write s.file with
  | (.ok true, after) => s.ended party after (entry :: s.due)
  | (_, after) => s.ended party after s.due

def drained (s : Shared) (party : Party) (mempool : LtpMempool) (queue : LtpQueueKind) (max : Nat)
    (write : Result Unit) : Shared :=
  match mempool.drain queue max write s.file with
  | (.ok entries, after) => s.ended party after (s.due.filter (· ∉ entries))
  | (.error _, after) => s.ended party after s.due

def removed (s : Shared) (party : Party) (mempool : LtpMempool) (queue : LtpQueueKind)
    (startDigest : Bytes32) (write : Result Unit) : Shared :=
  match mempool.removeStartDigest queue startDigest write s.file with
  | (.ok true, after) =>
    s.ended party after (s.due.filter fun e => ¬(e.queue = queue ∧ e.startDigest = startDigest))
  | (_, after) => s.ended party after s.due

/-- The entries that are not expired at the time of the prune. -/
def unexpiredDue (s : Shared) (profile : ChainProfile) : Result Nat → List LtpMempoolEntry
  | .ok now => s.due.filter (LtpMempool.unexpired profile now)
  | .error _ => s.due

def pruned (s : Shared) (party : Party) (mempool : LtpMempool) (now : Result Nat)
    (write : Result Unit) : Shared :=
  s.ended party (mempool.pruneExpired now write s.file).2 (s.unexpiredDue mempool.profile now)

/-- One operation; without an open handle there is none. -/
def step (path : String) (chain : LtpChain) (s : Shared) (call : Party × Op) : Shared :=
  match call.2, s.handle call.1 with
  | .openFile read, _ =>
    match LtpMempool.openFile path chain s.file read with
    | .ok mempool => { s with handle := Function.update s.handle call.1 (some mempool) }
    | .error _ => s
  | _, none => s
  | .enqueue entry write, some mempool => s.enqueued call.1 mempool entry write
  | .drain queue max write, some mempool => s.drained call.1 mempool queue max write
  | .removeStartDigest queue startDigest write, some mempool =>
    s.removed call.1 mempool queue startDigest write
  | .pruneExpired now write, some mempool => s.pruned call.1 mempool now write

/-- The file has the entry. -/
def Filed (s : Shared) (entry : LtpMempoolEntry) : Prop :=
  ∃ snapshot, s.file = some snapshot ∧ entry ∈ snapshot.queue entry.queue

/-- Every entry that is due is in the file. -/
def Kept (s : Shared) : Prop := ∀ entry ∈ s.due, s.Filed entry

end Shared

/-! ### When an operation may save -/

/-- The operation of the handle rewrites the file. -/
def Op.Saves (mempool : LtpMempool) : Op → Prop
  | .openFile _ => False
  | .enqueue entry write => write = .ok () ∧
    (∀ e ∈ mempool.snapshot.queue entry.queue, e.startDigest ≠ entry.startDigest) ∧
    (mempool.snapshot.queue entry.queue).length < mempool.profile.maxDepth
  | .drain queue max write => write = .ok () ∧ mempool.snapshot.queue queue ≠ [] ∧ 0 < max
  | .removeStartDigest queue startDigest write =>
    write = .ok () ∧ ∃ e ∈ mempool.snapshot.queue queue, e.startDigest = startDigest
  | .pruneExpired now write => write = .ok () ∧ ∃ time kind, now = .ok time ∧
    ∃ e ∈ mempool.snapshot.queue kind, LtpMempool.unexpired mempool.profile time e = false

/-- The operation itself enqueues, drains, removes or expires the entry. -/
def Op.Settles (mempool : LtpMempool) (entry : LtpMempoolEntry) : Op → Prop
  | .enqueue enqueued _ => entry = enqueued
  | .drain queue max _ => entry ∈ (mempool.snapshot.queue queue).take max
  | .removeStartDigest queue startDigest _ => entry.queue = queue ∧ entry.startDigest = startDigest
  | .pruneExpired (.ok now) _ => LtpMempool.unexpired mempool.profile now entry = false
  | _ => False

/-- A handle that rewrites the file has in its snapshot every due entry that the operation does not
settle itself. -/
def Current (s : Shared) (call : Party × Op) : Prop :=
  ∀ mempool, s.handle call.1 = some mempool → call.2.Saves mempool →
    ∀ entry ∈ s.due, call.2.Settles mempool entry ∨ entry ∈ mempool.snapshot.queue entry.queue

/-! ### What one operation keeps -/

section

variable {s : Shared} {party : Party} {mempool : LtpMempool} {write : Result Unit}

/-- Without a save the file stays, and no other entry is due. -/
theorem kept_of_unsaved {after : LtpMempool} {due : List LtpMempoolEntry} (h : s.Kept)
    (hdue : ∀ entry ∈ due, entry ∈ s.due) : (s.ended party (after, s.file) due).Kept :=
  fun entry hentry => h entry (hdue entry hentry)

/-- A save keeps the entries that are due exactly when they are in what is saved. -/
theorem kept_saved_iff {after : LtpMempool} {snapshot : MempoolSnapshot}
    {due : List LtpMempoolEntry} :
    (s.ended party (after, some snapshot) due).Kept ↔
      ∀ entry ∈ due, entry ∈ snapshot.queue entry.queue := by
  refine forall_congr' fun entry => imp_congr_right fun _ => ?_
  constructor
  · rintro ⟨saved, hsaved, hmem⟩
    cases hsaved
    exact hmem
  · exact fun hmem => ⟨snapshot, rfl, hmem⟩

theorem enqueued_kept_iff (h : s.Kept) (entry : LtpMempoolEntry) :
    (s.enqueued party mempool entry write).Kept ↔
      ((Op.enqueue entry write).Saves mempool → ∀ e ∈ s.due,
        (Op.enqueue entry write).Settles mempool e ∨ e ∈ mempool.snapshot.queue e.queue) := by
  have hsame : ∀ after, (s.ended party (after, s.file) s.due).Kept :=
    fun after => kept_of_unsaved h fun _ hmem => hmem
  unfold Shared.enqueued LtpMempool.enqueue
  by_cases hdup : ∃ e ∈ mempool.snapshot.queue entry.queue, e.startDigest = entry.startDigest
  · have hany : (mempool.snapshot.queue entry.queue).any (·.startDigest = entry.startDigest) := by
      simpa using hdup
    simp only [hany, if_true]
    refine iff_of_true (hsame _) fun hsaves => ?_
    obtain ⟨e, hmem, heq⟩ := hdup
    exact absurd heq (hsaves.2.1 e hmem)
  have hnone : (mempool.snapshot.queue entry.queue).any (·.startDigest = entry.startDigest) = false := by
    simpa using hdup
  simp only [hnone, Bool.false_eq_true, if_false]
  by_cases hfull : mempool.profile.maxDepth ≤ (mempool.snapshot.queue entry.queue).length
  · rw [if_pos hfull]
    exact iff_of_true (hsame _) fun hsaves => absurd hsaves.2.2 (by omega)
  rw [if_neg hfull]
  rcases mempool.save_eq (mempool.snapshot.setQueue entry.queue
      (mempool.snapshot.queue entry.queue ++ [entry])) true write s.file with
    ⟨after, hsave, hwrite⟩ | ⟨err, after, hsave, hwrite⟩
  swap
  · rw [hsave]
    exact iff_of_true (hsame _) fun hsaves => absurd hsaves.1 hwrite
  rw [hsave]
  dsimp only
  rw [kept_saved_iff]
  have hqueue : ∀ e : LtpMempoolEntry, e ∈ (mempool.snapshot.setQueue entry.queue
      (mempool.snapshot.queue entry.queue ++ [entry])).queue e.queue ↔
        e = entry ∨ e ∈ mempool.snapshot.queue e.queue := by
    intro e
    by_cases hkind : e.queue = entry.queue
    · rw [hkind, MempoolSnapshot.queue_setQueue_self, List.mem_append, List.mem_singleton, or_comm]
    · rw [MempoolSnapshot.queue_setQueue_of_ne _ _ hkind]
      refine (or_iff_right ?_).symm
      rintro rfl
      exact hkind rfl
  constructor
  · intro hkept _ e he
    exact (hqueue e).mp (hkept e (List.mem_cons_of_mem _ he))
  · intro hcurrent e he
    rw [hqueue]
    rcases List.mem_cons.mp he with rfl | he
    · exact .inl rfl
    · refine hcurrent ⟨hwrite, fun e hmem heq => hdup ⟨e, hmem, heq⟩, by omega⟩ e he

theorem drained_kept_iff (h : s.Kept) (queue : LtpQueueKind) (max : Nat) :
    (s.drained party mempool queue max write).Kept ↔
      ((Op.drain queue max write).Saves mempool → ∀ e ∈ s.due,
        (Op.drain queue max write).Settles mempool e ∨ e ∈ mempool.snapshot.queue e.queue) := by
  unfold Shared.drained LtpMempool.drain
  generalize hentries : mempool.snapshot.queue queue = entries
  by_cases hempty : entries.take (min entries.length max) = []
  · simp only [hempty, List.isEmpty_nil, if_true]
    refine iff_of_true (kept_of_unsaved h fun e he => (List.mem_filter.mp he).1) fun hsaves => ?_
    obtain ⟨-, hne, hpos⟩ := hsaves
    rw [hentries] at hne
    have hlength := List.length_pos_iff.mpr hne
    rw [List.take_eq_nil_iff] at hempty
    rcases hempty with hmin | hnil
    · omega
    · exact absurd hnil hne
  have hfalse : (entries.take (min entries.length max)).isEmpty = false := by simpa using hempty
  simp only [hfalse, Bool.false_eq_true, if_false]
  rcases mempool.save_eq (mempool.snapshot.setQueue queue (entries.drop (min entries.length max)))
      (entries.take (min entries.length max)) write s.file with
    ⟨after, hsave, hwrite⟩ | ⟨err, after, hsave, hwrite⟩
  swap
  · rw [hsave]
    exact iff_of_true (kept_of_unsaved h fun _ hmem => hmem) fun hsaves => absurd hsaves.1 hwrite
  rw [hsave]
  dsimp only
  rw [kept_saved_iff]
  generalize hcount : min entries.length max = n at *
  have hqueue : ∀ e : LtpMempoolEntry,
      e ∈ (mempool.snapshot.setQueue queue (entries.drop n)).queue e.queue →
        e ∈ mempool.snapshot.queue e.queue := by
    intro e he
    by_cases hkind : e.queue = queue
    · rw [hkind, MempoolSnapshot.queue_setQueue_self] at he
      rw [hkind, hentries]
      exact List.mem_of_mem_drop he
    · rwa [MempoolSnapshot.queue_setQueue_of_ne _ _ hkind] at he
  have htake : entries.take max = entries.take n := by
    rw [← hcount, Nat.min_comm, ← List.take_take, List.take_length]
  constructor
  · intro hkept _ e he
    by_cases htaken : e ∈ entries.take n
    · left
      show e ∈ (mempool.snapshot.queue queue).take max
      rwa [hentries, htake]
    · exact .inr (hqueue e (hkept e (List.mem_filter.mpr ⟨he, by simpa using htaken⟩)))
  · intro hcurrent e he
    obtain ⟨hdue, hleft⟩ := List.mem_filter.mp he
    have hleft : e ∉ entries.take n := by simpa using hleft
    have hsaves : (Op.drain queue max write).Saves mempool := by
      refine ⟨hwrite, ?_, ?_⟩
      · rw [hentries]
        rintro rfl
        simp at hempty
      · by_contra hzero
        have hn : n = 0 := by omega
        rw [hn] at hempty
        exact hempty rfl
    rcases hcurrent hsaves e hdue with hsettles | hmem
    · change e ∈ (mempool.snapshot.queue queue).take max at hsettles
      rw [hentries, htake] at hsettles
      exact absurd hsettles hleft
    by_cases hkind : e.queue = queue
    · rw [hkind, MempoolSnapshot.queue_setQueue_self]
      rw [hkind, hentries, ← List.take_append_drop n entries] at hmem
      rcases List.mem_append.mp hmem with hmem | hmem
      · exact absurd hmem hleft
      · exact hmem
    · rwa [MempoolSnapshot.queue_setQueue_of_ne _ _ hkind]

theorem removed_kept_iff (h : s.Kept) (queue : LtpQueueKind) (startDigest : Bytes32) :
    (s.removed party mempool queue startDigest write).Kept ↔
      ((Op.removeStartDigest queue startDigest write).Saves mempool → ∀ e ∈ s.due,
        (Op.removeStartDigest queue startDigest write).Settles mempool e ∨
          e ∈ mempool.snapshot.queue e.queue) := by
  have hsame : ∀ after, (s.ended party (after, s.file) s.due).Kept :=
    fun after => kept_of_unsaved h fun _ hmem => hmem
  unfold Shared.removed LtpMempool.removeStartDigest
  generalize hentries : mempool.snapshot.queue queue = entries
  cases hfind : entries.findIdx? (·.startDigest = startDigest) with
  | none =>
    simp only [hfind]
    refine iff_of_true (hsame _) fun hsaves => ?_
    obtain ⟨-, e, hmem, heq⟩ := hsaves
    rw [hentries] at hmem
    have hne := List.findIdx?_eq_none_iff.mp hfind e hmem
    simp [heq] at hne
  | some index =>
    simp only [hfind]
    obtain ⟨hindex, hdigest, -⟩ := List.findIdx?_eq_some_iff_getElem.mp hfind
    have hdigest : entries[index].startDigest = startDigest := by simpa using hdigest
    rcases mempool.save_eq (mempool.snapshot.setQueue queue (entries.eraseIdx index)) true write
        s.file with ⟨after, hsave, hwrite⟩ | ⟨err, after, hsave, hwrite⟩
    swap
    · rw [hsave]
      exact iff_of_true (hsame _) fun hsaves => absurd hsaves.1 hwrite
    rw [hsave]
    dsimp only
    rw [kept_saved_iff]
    have hqueue : ∀ e : LtpMempoolEntry, ¬(e.queue = queue ∧ e.startDigest = startDigest) →
        (e ∈ (mempool.snapshot.setQueue queue (entries.eraseIdx index)).queue e.queue ↔
          e ∈ mempool.snapshot.queue e.queue) := by
      intro e hother
      by_cases hkind : e.queue = queue
      · rw [hkind, MempoolSnapshot.queue_setQueue_self, hentries]
        refine ⟨List.mem_of_mem_eraseIdx, fun hmem => ?_⟩
        obtain ⟨j, hj, rfl⟩ := List.mem_iff_getElem.mp hmem
        refine List.mem_eraseIdx_iff_getElem.mpr ⟨j, hj, ?_, rfl⟩
        rintro rfl
        exact hother ⟨hkind, hdigest⟩
      · rw [MempoolSnapshot.queue_setQueue_of_ne _ _ hkind]
    have hsaves : (Op.removeStartDigest queue startDigest write).Saves mempool :=
      ⟨hwrite, entries[index], by rw [hentries]; exact List.getElem_mem hindex, hdigest⟩
    constructor
    · intro hkept _ e he
      by_cases hown : e.queue = queue ∧ e.startDigest = startDigest
      · exact .inl hown
      · exact .inr ((hqueue e hown).mp (hkept e (List.mem_filter.mpr ⟨he, decide_eq_true hown⟩)))
    · intro hcurrent e he
      obtain ⟨hdue, hother⟩ := List.mem_filter.mp he
      have hother : ¬(e.queue = queue ∧ e.startDigest = startDigest) := of_decide_eq_true hother
      exact (hqueue e hother).mpr ((hcurrent hsaves e hdue).resolve_left hother)

/-- Something is pruned when some entry is expired. -/
theorem entryCount_retain_lt_iff (snapshot : MempoolSnapshot) (keep : LtpMempoolEntry → Bool) :
    0 < snapshot.entryCount - (snapshot.retain keep).entryCount ↔
      ∃ kind, ∃ e ∈ snapshot.queue kind, keep e = false := by
  have hle : ∀ kind, ((snapshot.queue kind).filter keep).length ≤ (snapshot.queue kind).length :=
    fun kind => List.length_filter_le _ _
  have hlt : ∀ kind, ((snapshot.queue kind).filter keep).length < (snapshot.queue kind).length ↔
      ∃ e ∈ snapshot.queue kind, keep e = false := by
    intro kind
    rw [List.length_filter_lt_length_iff_exists]
    simp
  have hcommitment := hle .commitment
  have hstorage := hle .storage
  have hmarket := hle .market
  simp only [← hlt]
  constructor
  · intro hpos
    by_contra hnone
    push Not at hnone
    have h1 := hnone .commitment
    have h2 := hnone .storage
    have h3 := hnone .market
    simp only [MempoolSnapshot.entryCount, MempoolSnapshot.retain, MempoolSnapshot.queue] at *
    omega
  · rintro ⟨kind, hkind⟩
    cases kind <;>
      simp only [MempoolSnapshot.entryCount, MempoolSnapshot.retain, MempoolSnapshot.queue] at * <;>
      omega

theorem pruned_kept_iff (h : s.Kept) (now : Result Nat) :
    (s.pruned party mempool now write).Kept ↔
      ((Op.pruneExpired now write).Saves mempool → ∀ e ∈ s.due,
        (Op.pruneExpired now write).Settles mempool e ∨ e ∈ mempool.snapshot.queue e.queue) := by
  unfold Shared.pruned LtpMempool.pruneExpired
  cases now with
  | error err =>
    refine iff_of_true (kept_of_unsaved h fun _ hmem => hmem) ?_
    rintro ⟨-, time, kind, htime, -⟩
    cases htime
  | ok time =>
    have hdue : ∀ e ∈ s.unexpiredDue mempool.profile (.ok time), e ∈ s.due :=
      fun e he => (List.mem_filter.mp he).1
    simp only [Result.context]
    by_cases hsome : 0 < mempool.snapshot.entryCount -
        (mempool.snapshot.retain (LtpMempool.unexpired mempool.profile time)).entryCount
    swap
    · rw [if_neg hsome]
      refine iff_of_true (kept_of_unsaved h hdue) ?_
      rintro ⟨-, time', kind, htime, hexpired⟩
      cases htime
      exact absurd ((entryCount_retain_lt_iff _ _).mpr ⟨kind, hexpired⟩) hsome
    rw [if_pos hsome]
    rcases mempool.save_eq (mempool.snapshot.retain (LtpMempool.unexpired mempool.profile time))
        (mempool.snapshot.entryCount -
          (mempool.snapshot.retain (LtpMempool.unexpired mempool.profile time)).entryCount) write
        s.file with ⟨after, hsave, hwrite⟩ | ⟨err, after, hsave, hwrite⟩
    swap
    · rw [hsave]
      exact iff_of_true (kept_of_unsaved h hdue) fun hsaves => absurd hsaves.1 hwrite
    rw [hsave]
    dsimp only
    rw [kept_saved_iff]
    have hsaves : (Op.pruneExpired (.ok time) write).Saves mempool := by
      obtain ⟨kind, hexpired⟩ := (entryCount_retain_lt_iff _ _).mp hsome
      exact ⟨hwrite, time, kind, rfl, hexpired⟩
    constructor
    · intro hkept _ e he
      cases hfresh : LtpMempool.unexpired mempool.profile time e with
      | false => exact .inl hfresh
      | true =>
        have hmem := hkept e (List.mem_filter.mpr ⟨he, hfresh⟩)
        rw [MempoolSnapshot.queue_retain] at hmem
        exact .inr (List.mem_filter.mp hmem).1
    · intro hcurrent e he
      obtain ⟨hin, hfresh⟩ := List.mem_filter.mp he
      rw [MempoolSnapshot.queue_retain]
      refine List.mem_filter.mpr ⟨(hcurrent hsaves e hin).resolve_left fun hsettles => ?_, hfresh⟩
      change LtpMempool.unexpired mempool.profile time e = false at hsettles
      rw [hfresh] at hsettles
      cases hsettles

/-- An operation keeps the due entries exactly when the handle that saves has them. -/
theorem step_kept_iff (path : String) (chain : LtpChain) (call : Party × Op) (h : s.Kept) :
    (s.step path chain call).Kept ↔ Current s call := by
  obtain ⟨party, op⟩ := call
  unfold Current
  cases hhandle : s.handle party with
  | none =>
    refine iff_of_true ?_ fun mempool hnone => by cases hnone
    cases op with
    | openFile read =>
      simp only [Shared.step]
      split <;> exact h
    | _ =>
      simp only [Shared.step, hhandle]
      exact h
  | some mempool =>
    simp only [Option.some.injEq, forall_eq']
    cases op with
    | openFile read =>
      refine iff_of_true ?_ fun hsaves => hsaves.elim
      simp only [Shared.step]
      split <;> exact h
    | enqueue entry write =>
      simp only [Shared.step, hhandle]
      exact enqueued_kept_iff h entry
    | drain queue max write =>
      simp only [Shared.step, hhandle]
      exact drained_kept_iff h queue max
    | removeStartDigest queue startDigest write =>
      simp only [Shared.step, hhandle]
      exact removed_kept_iff h queue startDigest
    | pruneExpired now write =>
      simp only [Shared.step, hhandle]
      exact pruned_kept_iff h now

end

/-- In a run of two handles every due entry is in the file after each operation exactly when every
handle that saves has the due entries in its snapshot. -/
theorem mempool_kept_iff (path : String) (chain : LtpChain) (file : MempoolFile)
    (calls : List (Party × Op)) :
    Always (Shared.step path chain) Shared.Kept (.start file) calls ↔
      EachStep (Shared.step path chain) Current (.start file) calls :=
  always_iff (fun _ call hkept => step_kept_iff path chain call hkept) fun _ hentry => by cases hentry

/-! ### Two handles that are opened before either saves -/

section

def queuedDigest (n : UInt8) : Bytes32 := Bytes32.replicate n

def queuedEntry (n : UInt8) : LtpMempoolEntry :=
  ⟨queuedDigest n, queuedDigest n, 1700000000, 0, .commitment⟩

def crossedCalls : List (Party × Op) :=
  [(.upgrade, .openFile (.ok ())), (.worker, .openFile (.ok ())),
    (.upgrade, .enqueue (queuedEntry 1) (.ok ())), (.worker, .enqueue (queuedEntry 2) (.ok ()))]

/-- The second save drops what the first handle enqueued. -/
theorem not_mempool_kept : ¬Always (Shared.step "ltp/mempool.json" .regtest) Shared.Kept
    (.start none) crossedCalls := by
  intro h
  obtain ⟨snapshot, hfile, hmem⟩ := h crossedCalls (List.prefix_rfl) (queuedEntry 1) (by decide)
  obtain rfl : ⟨[queuedEntry 2], [], []⟩ = snapshot := Option.some.inj (Eq.trans rfl hfile)
  revert hmem
  decide

end

end Lord.Ltp
