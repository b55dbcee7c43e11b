import Lord.Calendar.DrainOrder
import Lord.Calendar.KnownDigests

/-! The queue behind a failed anchor: the drained batch goes to the back of the queue, its last digest
first, whether the broadcast fails or the anchor times out. -/

namespace Lord.Calendar

open Ots Runs DigestQueue

/-! ### A drain and its return -/

/-- The digests that a drain prefers. -/
def preferredOf (config : AnchorConfig) (env : DrainEnv) (pending : List Bytes32) : List Bytes32 :=
  if config.ltpPriority then
    match env.priority with
    | .ok priority => preferred pending priority config.batchMax
    | .error _ => []
  else []

/-- The digests that go back to the queue in the order in which they stood there: those that the drain
prefers stand at its end, in reverse, and besides them the drain takes none, or the only other one. -/
def KeepsOrder (config : AnchorConfig) (env : DrainEnv) (pending : List Bytes32) : Prop :=
  (preferredOf config env pending).reverse <:+ pending ∧
    (config.batchMax ≤ (preferredOf config env pending).length ∨
      pending.length ≤ (preferredOf config env pending).length + 1)

theorem drained_eq (config : AnchorConfig) (env : DrainEnv) {queue : DigestQueue}
    (hnodup : queue.pending.Nodup) :
    drained config env queue =
      (preferredOf config env queue.pending ++
          (others queue.pending (preferredOf config env queue.pending)).take
            (config.batchMax - (preferredOf config env queue.pending).length),
        ⟨(others queue.pending (preferredOf config env queue.pending)).drop
          (config.batchMax - (preferredOf config env queue.pending).length)⟩) := by
  have hplain : queue.drainBatch config.batchMax =
      ([] ++ (others queue.pending []).take (config.batchMax - 0),
        ⟨(others queue.pending []).drop (config.batchMax - 0)⟩) := by
    rw [others_nil]
    rfl
  unfold drained preferredOf
  split
  · cases env.priority with
    | ok priority => exact drainBatchPrioritized_eq hnodup _ _
    | error err => exact hplain
  · exact hplain

theorem preferredOf_nodup (config : AnchorConfig) (env : DrainEnv) (pending : List Bytes32) :
    (preferredOf config env pending).Nodup := by
  unfold preferredOf
  split
  · split
    · exact nodup_preferred _ _
    · exact List.nodup_nil
  · exact List.nodup_nil

theorem mem_of_mem_preferredOf {config : AnchorConfig} {env : DrainEnv} {pending : List Bytes32}
    {digest : Bytes32} (h : digest ∈ preferredOf config env pending) : digest ∈ pending := by
  unfold preferredOf at h
  split at h
  · split at h
    · exact (mem_of_mem_preferred h).1
    · cases h
  · cases h

/-- New digests go to the back of the queue. -/
theorem foldl_enqueue_eq {queue : DigestQueue} {digests : List Bytes32} (hnodup : digests.Nodup)
    (hnew : ∀ digest ∈ digests, digest ∉ queue.pending) :
    (digests.foldl enqueue queue).pending = queue.pending ++ digests := by
  induction digests generalizing queue with
  | nil => simp
  | cons digest rest ih =>
    obtain ⟨hhead, hrest⟩ := List.nodup_cons.mp hnodup
    have hqueued : (queue.enqueue digest).pending = queue.pending ++ [digest] := by
      rw [enqueue, if_neg (hnew digest List.mem_cons_self)]
    rw [List.foldl_cons, ih hrest, hqueued, List.append_assoc]
    · rfl
    · intro other hother hmem
      rw [hqueued, List.mem_append, List.mem_singleton] at hmem
      rcases hmem with hold | rfl
      · exact hnew other (List.mem_cons_of_mem _ hother) hold
      · exact hhead hother

/-- A list without duplicates that reads the same in both directions has at most one member. -/
theorem length_le_one_of_reverse_eq {digests : List Bytes32} (hnodup : digests.Nodup)
    (h : digests.reverse = digests) : digests.length ≤ 1 := by
  cases digests with
  | nil => exact Nat.zero_le _
  | cons first rest =>
    cases rest using List.reverseRecOn with
    | nil => exact le_refl _
    | append_singleton middle last =>
      have hhead : last = first := by simpa using congrArg List.head? h
      simp [hhead] at hnodup

/-- The batch and the rest are the queue. -/
theorem drained_perm (config : AnchorConfig) (env : DrainEnv) {queue : DigestQueue}
    (hnodup : queue.pending.Nodup) :
    ((drained config env queue).1 ++ (drained config env queue).2.pending).Perm queue.pending := by
  rw [drained_eq config env hnodup]
  dsimp only
  rw [List.append_assoc, List.take_append_drop]
  exact append_others_perm hnodup (preferredOf_nodup config env queue.pending)
    fun _ => mem_of_mem_preferredOf

/-- The batch that goes back stands behind the rest, its last digest first. -/
theorem enqueue_drained (config : AnchorConfig) (env : DrainEnv) {queue : DigestQueue}
    (hnodup : queue.pending.Nodup) :
    ((drained config env queue).1.reverse.foldl enqueue (drained config env queue).2).pending =
      (drained config env queue).2.pending ++ (drained config env queue).1.reverse := by
  have hboth := (drained_perm config env hnodup).nodup_iff.mpr hnodup
  obtain ⟨hbatch, -, hapart⟩ := List.nodup_append.mp hboth
  refine foldl_enqueue_eq (List.nodup_reverse.mpr hbatch) fun digest hmem hrest => ?_
  exact hapart digest (List.mem_reverse.mp hmem) digest hrest rfl

/-- What a drain returns stands as before exactly when the condition holds. -/
theorem returned_eq_iff (config : AnchorConfig) (env : DrainEnv) {queue : DigestQueue}
    (hnodup : queue.pending.Nodup) :
    (drained config env queue).2.pending ++ (drained config env queue).1.reverse = queue.pending ↔
      KeepsOrder config env queue.pending := by
  rw [drained_eq config env hnodup, KeepsOrder]
  have hfirst := preferredOf_nodup config env queue.pending
  have hperm := append_others_perm hnodup hfirst fun _ => mem_of_mem_preferredOf
  generalize preferredOf config env queue.pending = first at hfirst hperm
  generalize hrest : others queue.pending first = rest at hperm
  have hrestnodup : rest.Nodup := by
    rw [← hrest]
    exact hnodup.filter _
  have hlength : first.length + rest.length = queue.pending.length := by
    rw [← List.length_append, hperm.length_eq]
  generalize hcount : config.batchMax - first.length = count
  have hapart : ∀ digest ∈ rest, digest ∉ first := by
    intro digest hmem
    rw [← hrest] at hmem
    simpa using (List.mem_filter.mp hmem).2
  -- the preferred digests are at the end on both sides, and the others stand in front of them
  have hothers : ∀ front : List Bytes32, (∀ digest ∈ front, digest ∉ first) →
      others (front ++ first.reverse) first = front := by
    intro front hfront
    rw [others, List.filter_append, List.filter_eq_self.mpr fun d hd => by simpa using hfront d hd,
      List.filter_eq_nil_iff.mpr fun d hd => by simpa using hd, List.append_nil]
  rw [List.reverse_append, ← List.append_assoc]
  constructor
  · intro h
    refine ⟨⟨_, h⟩, ?_⟩
    have hturned : rest.drop count ++ (rest.take count).reverse = rest := by
      have hfront := hothers (rest.drop count ++ (rest.take count).reverse) fun digest hmem => by
        rcases List.mem_append.mp hmem with hmem | hmem
        · exact hapart digest (List.mem_of_mem_drop hmem)
        · exact hapart digest (List.mem_of_mem_take (List.mem_reverse.mp hmem))
      rw [h, hrest] at hfront
      exact hfront.symm
    rcases Nat.eq_zero_or_pos count with hzero | hpos
    · exact .inl (by omega)
    right
    cases hdrop : rest.drop count with
    | nil =>
      have hall : rest.take count = rest := List.take_of_length_le (List.drop_eq_nil_iff.mp hdrop)
      rw [hdrop, hall, List.nil_append] at hturned
      have := length_le_one_of_reverse_eq hrestnodup hturned
      omega
    | cons head tail =>
      -- the head of the queue would stand in the batch and behind it
      have hhead : head ∈ rest.take count := by
        obtain ⟨k, rfl⟩ := Nat.exists_eq_succ_of_ne_zero (Nat.ne_of_gt hpos)
        rw [← hturned, hdrop]
        exact List.mem_cons_self
      have hsplit := hrestnodup
      rw [← List.take_append_drop count rest, hdrop] at hsplit
      exact absurd rfl ((List.nodup_append.mp hsplit).2.2 head hhead head List.mem_cons_self)
  · rintro ⟨⟨front, hfront⟩, hcounts⟩
    have hfrontapart : ∀ digest ∈ front, digest ∉ first := by
      intro digest hmem hin
      rw [← hfront] at hnodup
      exact (List.nodup_append.mp hnodup).2.2 digest hmem digest (List.mem_reverse.mpr hin) rfl
    obtain rfl : front = rest := by
      rw [← hothers front hfrontapart, hfront, hrest]
    rw [← hfront]
    congr 1
    rcases hcounts with hfull | hone
    · obtain rfl : count = 0 := by omega
      simp
    · cases front with
      | nil => simp
      | cons only tail =>
        obtain rfl : tail = [] := by
          rw [← List.length_eq_zero_iff]
          rw [List.length_cons] at hlength
          omega
        cases count <;> simp

/-! ### The ways an anchor fails -/

/-- What happens while an anchor is pending: a tick, one that does not read the files, or a restart. -/
inductive Wait where
  | tick (env : SettleEnv)
  | unread (err : Error)
  | restart

def Wait.actions : Wait → List Action
  | .tick env => [.load (.ok ()), .install, .settle env]
  | .unread err => [.load (.error err)]
  | .restart => [.restart]

/-- How an anchor fails behind its drain. -/
inductive Failure where
  | broadcast (err : Error) (broadcastAt : Result UInt64) (write : Result Unit)
  /-- The anchor is pending until a tick finds that it timed out. -/
  | timeout (txid : String) (broadcastAt : UInt64) (waits : List Wait) (env : SettleEnv)

def Failure.actions : Failure → List Action
  | .broadcast err broadcastAt write => [.broadcast ⟨.error err, broadcastAt, write⟩]
  | .timeout txid broadcastAt waits env =>
    .broadcast ⟨.ok txid, .ok broadcastAt, .ok ()⟩ ::
      (waits.flatMap Wait.actions ++ (Wait.tick env).actions)

/-- A tick fails, or it does not find the anchor before its time is out. -/
def Wait.Waits (config : AnchorConfig) (pending : PendingAnchor) : Wait → Prop
  | .tick env => (∃ err, env.findConfirmedTx pending.txid = .error err) ∨
    env.findConfirmedTx pending.txid = .ok none ∧
      pendingAnchorTimedOut pending env.now config.pendingAnchorTimeout = false
  | .unread _ => True
  | .restart => True

/-- The ticks before the last one wait, and the last one finds that the time is out. -/
def Failure.Fails (config : AnchorConfig) (batch : List Bytes32) (merkleRoot : Bytes) :
    Failure → Prop
  | .broadcast .. => True
  | .timeout txid broadcastAt waits env =>
    let pending : PendingAnchor := ⟨txid, Hex.encode merkleRoot, batch, broadcastAt⟩
    (∀ wait ∈ waits, wait.Waits config pending) ∧ env.findConfirmedTx txid = .ok none ∧
      pendingAnchorTimedOut pending env.now config.pendingAnchorTimeout = true

section

variable [Digests] [OtsCodec] {config : AnchorConfig} {s : System} {pending : PendingAnchor}

/-- The anchor is pending between two ticks, in memory and on disk. -/
structure Waiting (pending : PendingAnchor) (queue : DigestQueue) (s : System) : Prop where
  idle : s.phase = .idle
  queue : s.inner.state.queue = queue
  anchor : s.inner.state.store.pendingAnchor = some pending
  disk : loadState s.inner.files = s.inner.state

/-- A tick that settles a pending anchor works on what is on disk. -/
theorem Waiting.tick {queue : DigestQueue} (h : Waiting pending queue s) (env : SettleEnv) :
    run (System.step config) s (Wait.tick env).actions =
      { s with phase := .installed, recent := [] }.next (settleSection s.inner config env) := by
  have hinstalled : installSection s.inner (loadState s.inner.files) = s.inner := by
    rw [installSection, h.disk]
  simp only [Wait.actions, run, List.foldl_cons, List.foldl_nil, System.step, h.idle, loadSection,
    System.next, hinstalled]

theorem Waiting.wait {queue : DigestQueue} (h : Waiting pending queue s) {wait : Wait}
    (hwaits : wait.Waits config pending) :
    Waiting pending queue (run (System.step config) s wait.actions) := by
  cases wait with
  | tick env =>
    rw [h.tick]
    rcases hwaits with ⟨err, hfind⟩ | ⟨hfind, htime⟩
    · have hsettled : settleSection s.inner config env = (.error err, s.inner) := by
        simp only [settleSection, h.anchor, hfind]
      rw [hsettled]
      exact ⟨rfl, h.queue, h.anchor, h.disk⟩
    · have hsettled : settleSection s.inner config env = (.ok .idle, s.inner) := by
        simp only [settleSection, h.anchor, hfind, htime]
        rfl
      rw [hsettled]
      exact ⟨rfl, h.queue, h.anchor, h.disk⟩
  | unread err =>
    have hunread : run (System.step config) s (Wait.unread err).actions =
        { s with recent := [] } := by
      simp only [Wait.actions, run, List.foldl_cons, List.foldl_nil, System.step, h.idle,
        loadSection, System.next]
    rw [hunread]
    exact ⟨h.idle, h.queue, h.anchor, h.disk⟩
  | restart =>
    refine ⟨rfl, ?_, ?_, rfl⟩
    · rw [← h.queue, ← h.disk]
      rfl
    · rw [← h.anchor, ← h.disk]
      rfl

theorem Waiting.waits {queue : DigestQueue} (h : Waiting pending queue s) {waits : List Wait}
    (hwaits : ∀ wait ∈ waits, wait.Waits config pending) :
    Waiting pending queue (run (System.step config) s (waits.flatMap Wait.actions)) := by
  induction waits generalizing s with
  | nil => exact h
  | cons wait rest ih =>
    rw [List.flatMap_cons, run, List.foldl_append]
    exact ih (h.wait (hwaits wait List.mem_cons_self))
      fun other hother => hwaits other (List.mem_cons_of_mem _ hother)

/-- A tick that finds that the time is out puts the batch back. -/
theorem Waiting.timedOut {queue : DigestQueue} (h : Waiting pending queue s) {env : SettleEnv}
    (hfind : env.findConfirmedTx pending.txid = .ok none)
    (htime : pendingAnchorTimedOut pending env.now config.pendingAnchorTimeout = true) :
    (run (System.step config) s (Wait.tick env).actions).inner.state.queue =
      pending.batch.reverse.foldl enqueue queue := by
  rw [h.tick]
  simp only [settleSection, h.anchor, hfind, htime, if_true]
  rw [← h.queue]
  cases env.write <;> rfl

/-- The queue behind a drain whose anchor fails is the one before it exactly when the condition
holds. -/
theorem failedAnchor_restores_iff {now : Nat} (hphase : s.phase = .funded now)
    (hnodup : s.inner.state.queue.pending.Nodup) {env : DrainEnv} {batch : List Bytes32}
    {merkleRoot : Bytes} (hdrained : (s.step config (.drain env)).phase = .drained now batch merkleRoot)
    {failure : Failure} (hfails : failure.Fails config batch merkleRoot) :
    (run (System.step config) s (.drain env :: failure.actions)).inner.state.queue.pending =
        s.inner.state.queue.pending ↔
      KeepsOrder config env s.inner.state.queue.pending := by
  rw [← returned_eq_iff config env hnodup, ← enqueue_drained config env hnodup]
  have hstep : s.step config (.drain env) = s.next (drainSection s.inner config env now) := by
    simp only [System.step, hphase]
  rw [hstep] at hdrained
  rw [run, List.foldl_cons, hstep]
  rcases drainSection_cases s.inner config env now with
    ⟨queue, hrun, -⟩ | ⟨taken, queue, root, -, htaken, -, hrun⟩
  · rw [hrun] at hdrained
    cases hdrained
  rw [hrun] at hdrained ⊢
  rcases (fileBatch s.inner queue taken root).saveThen_cases env.write (.drained now taken root) with
    ⟨files, hsaved, hload⟩ | ⟨err, hfailed⟩
  swap
  · rw [hfailed] at hdrained
    cases hdrained
  rw [hsaved] at hdrained ⊢
  cases hdrained
  rw [htaken]
  cases failure with
  | broadcast err broadcastAt write =>
    cases write <;> rfl
  | timeout txid broadcastAt waits settle =>
    obtain ⟨hwaits, hfind, htime⟩ := hfails
    have hwaiting : Waiting ⟨txid, Hex.encode merkleRoot, batch, broadcastAt⟩ queue
        ((s.next (.ok (.drained now batch merkleRoot),
          { fileBatch s.inner queue batch merkleRoot with files })).step config
            (.broadcast ⟨.ok txid, .ok broadcastAt, .ok ()⟩)) := ⟨rfl, rfl, rfl, rfl⟩
    have hqueue := (hwaiting.waits hwaits).timedOut hfind htime
    rw [Failure.actions, List.foldl_cons, List.foldl_append]
    exact iff_of_eq (congrArg (·.pending = s.inner.state.queue.pending) hqueue)

end

/-! ### Two digests -/

section

attribute [local instance] Format.sha256Digests Format.sha256Codec

/-- A calendar with these digests queued, and a funded wallet. -/
def fundedCalendar (pending : List Bytes32) : System :=
  { emptyCalendar with
    inner := { emptyCalendar.inner with state := ⟨⟨pending⟩, .empty⟩ }
    phase := .funded 1000 }

/-- A failed broadcast turns a batch of two around. -/
theorem not_failedAnchor_restores :
    (run (System.step regtestDefaults) (fundedCalendar [byteDigest 1, byteDigest 2])
      (.drain ⟨.error "no mempool", .ok ()⟩ ::
        (Failure.broadcast "sendrawtransaction failed" (.ok 1000) (.ok ())).actions)).inner.state.queue.pending ≠
      (fundedCalendar [byteDigest 1, byteDigest 2]).inner.state.queue.pending := by
  decide +kernel

theorem failedAnchor_restores_example :
    (run (System.step { regtestDefaults with batchMax := 1, ltpPriority := true })
      (fundedCalendar [byteDigest 1, byteDigest 2])
      (.drain ⟨.ok [byteDigest 2], .ok ()⟩ ::
        (Failure.broadcast "sendrawtransaction failed" (.ok 1000) (.ok ())).actions)).inner.state.queue.pending =
      [byteDigest 1, byteDigest 2] := by
  have hfails : (Failure.broadcast "sendrawtransaction failed" (.ok 1000) (.ok ())).Fails
      { regtestDefaults with batchMax := 1, ltpPriority := true } [byteDigest 2]
      (byteDigest 2).val := trivial
  have hroot : otsMerkleRoot [(byteDigest 2).val] = some (byteDigest 2).val := by
    rw [otsMerkleRoot, otsRootLoop]
    rfl
  have hdrained : ((fundedCalendar [byteDigest 1, byteDigest 2]).step
      { regtestDefaults with batchMax := 1, ltpPriority := true }
      (.drain ⟨.ok [byteDigest 2], .ok ()⟩)).phase =
        .drained 1000 [byteDigest 2] (byteDigest 2).val := by
    have hbatch : drained { regtestDefaults with batchMax := 1, ltpPriority := true }
        ⟨.ok [byteDigest 2], .ok ()⟩ ⟨[byteDigest 1, byteDigest 2]⟩ =
          ([byteDigest 2], ⟨[byteDigest 1]⟩) := rfl
    simp [System.step, fundedCalendar, drainSection, emptyCalendar, CalendarStore.empty, hbatch, hroot,
      okOr]
    rfl
  have hkeeps : KeepsOrder { regtestDefaults with batchMax := 1, ltpPriority := true }
      ⟨.ok [byteDigest 2], .ok ()⟩ [byteDigest 1, byteDigest 2] :=
    ⟨⟨[byteDigest 1], by decide +kernel⟩, by decide +kernel⟩
  exact (failedAnchor_restores_iff rfl (by decide +kernel) hdrained hfails).mpr hkeeps

end

end Lord.Calendar
