import Lord.Index.Queries
import Lord.Ots.Format

/-! Which queries take the mutex of the store only while it is free. -/

namespace Lord.Index.Query

open Bitcoin Ots Guarded Runs

/-! ### Calls -/

inductive Operation where
  | list (outpoint : OutPoint)
  | find (sat : Nat)
  | findRange (rangeStart rangeEnd : Nat)
  | containsOutput (outpoint : OutPoint)
  | getOutputInfo (outpoint : OutPoint)
  | getUtxoRecursive (outpoint : OutPoint)
  | getSatBalancesForOutputs (outputs : List OutPoint)
  | blockTime (height : Nat)
  | status
  | info
  | handleReorg (height depth : Nat)

/-- A call, or a commit of the updater in between. -/
inductive Step where
  | call (operation : Operation)
  | commit (content : Content)

/-- The call, without its result. -/
def ignore {α : Type} (x : Guarded Content α) : Guarded Content Unit := do
  let _ ← x
  pure ()

section

variable [Digests] (env : Env)

def Operation.perform : Operation → Guarded Content Unit
  | .list outpoint => ignore (Query.list env outpoint)
  | .find sat => ignore (Query.find env sat)
  | .findRange rangeStart rangeEnd => ignore (Query.findRange env rangeStart rangeEnd)
  | .containsOutput outpoint => ignore (Query.containsOutput outpoint)
  | .getOutputInfo outpoint => ignore (Query.getOutputInfo env outpoint)
  | .getUtxoRecursive outpoint => ignore (Query.getUtxoRecursive env outpoint)
  | .getSatBalancesForOutputs outputs => ignore (Query.getSatBalancesForOutputs env outputs)
  | .blockTime height => ignore (Query.blockTime env height)
  | .status => ignore (Query.status env)
  | .info => ignore (Query.info env)
  | .handleReorg height depth => Query.handleReorg env height depth

def Step.perform : Step → Guarded Content Unit
  | .call operation => operation.perform env
  | .commit content => lock (write content)

/-- The mutex behind a step. -/
def execute (m : Mutex Content) (step : Step) : Mutex Content := (step.perform env m).2

/-! ### The statement -/

/-- The answer of `get_utxo_recursive` is that of `list`, with the total of the ranges; an entry of the
table parses. -/
def Answers (content : Content) (outpoint : OutPoint) : Prop :=
  ∀ entry parsed, content.tables.outpointToUtxoEntry outpoint = some entry →
    UtxoEntry.parse env.config entry = some parsed →
    ∃ utxo, (Query.getUtxoRecursive env outpoint ⟨false, content⟩).1 = .done (.ok (some utxo)) ∧
      (Query.list env outpoint ⟨false, content⟩).1 = .done (.ok utxo.satRanges) ∧
      ∀ ranges, utxo.satRanges = some ranges → utxo.value = total ranges

/-- The step takes the mutex only while it is free, leaves it free, and answers. -/
def Meets (m : Mutex Content) (step : Step) : Prop :=
  m.held = false ∧ (step.perform env m).1 ≠ .waits ∧ (step.perform env m).2.held = false ∧
    ∀ outpoint, step = .call (.getUtxoRecursive outpoint) → Answers env m.content outpoint

/-- A call of `get_utxo_recursive` for an indexed output, with the sat index. -/
def ListsUnderGuard (m : Mutex Content) (step : Step) : Prop :=
  env.config.indexSats = true ∧ ∃ outpoint, step = .call (.getUtxoRecursive outpoint) ∧
    (m.content.tables.outpointToUtxoEntry outpoint).isSome = true

end

/-! ### Calls that free the mutex -/

theorem frees_ignore {α : Type} {x : Guarded Content α} (h : Frees x) : Frees (ignore x) :=
  h.bind fun _ => (lockless_pure ()).frees

theorem frees_blockCount : Frees blockCount :=
  frees_lock (lockless_read.bind fun _ => lockless_pure _)

theorem frees_list (env : Env) (outpoint : OutPoint) : Frees (list env outpoint) := by
  unfold list
  split
  · exact (lockless_pure none).frees
  · exact frees_lock (lockless_read.bind fun _ => lockless_lift _)

theorem frees_containsOutput (outpoint : OutPoint) : Frees (containsOutput outpoint) :=
  frees_lock (lockless_read.bind fun _ => lockless_pure _)

theorem frees_blockTime (env : Env) (height : Nat) : Frees (blockTime env height) := by
  refine frees_lock (lockless_read.bind fun content => ?_)
  split
  · exact lockless_pure _
  · refine (lockless_lift _).bind fun expectedBlocks => ?_
    exact (lockless_lift _).bind fun time => lockless_pure _

theorem frees_info (env : Env) : Frees (info env) :=
  frees_lock (lockless_read.bind fun _ => (lockless_lift _).bind fun _ => lockless_pure _)

theorem frees_handleReorg (env : Env) (height depth : Nat) : Frees (handleReorg env height depth) := by
  unfold handleReorg
  split
  · exact (lockless_lift _).frees
  · refine (frees_lock (lockless_read.bind fun _ => lockless_lift _)).bind fun savepointHeight => ?_
    refine (frees_lock (lockless_read.bind fun content => ?_)).bind fun _ => ?_
    · split
      · exact lockless_lift _
      · exact lockless_write _
    · refine (frees_lock (lockless_read.bind fun content => ?_)).bind fun _ => ?_
      · exact (lockless_lift _).bind fun value => lockless_write _
      · exact frees_blockCount.bind fun _ => (lockless_pure ()).frees

section

variable [Digests] (env : Env)

theorem frees_blockHash (height : Option Nat) : Frees (blockHash height) :=
  frees_lock (lockless_read.bind fun _ => lockless_pure _)

theorem frees_getUnspentOrUnconfirmedOutput (txid : Bytes32) (vout : Nat) :
    Frees (getUnspentOrUnconfirmedOutput env txid vout) := by
  unfold getUnspentOrUnconfirmedOutput
  split
  · split
    · exact (lockless_pure none).frees
    · refine (frees_blockHash none).bind fun hash => ?_
      refine (lockless_lift _).frees.bind fun bestblock => ?_
      exact frees_blockCount.bind fun confirmations => (lockless_pure _).frees
  · exact (lockless_lift _).frees

omit [Digests] in
theorem frees_getTransactionInfo (txid : Bytes32) : Frees (getTransactionInfo env txid) := by
  unfold getTransactionInfo
  split
  · exact frees_blockCount.bind fun confirmations => (lockless_pure _).frees
  split
  · exact (lockless_pure none).frees
  · exact (lockless_lift _).frees

theorem frees_getOutputInfo (outpoint : OutPoint) : Frees (getOutputInfo env outpoint) := by
  refine (frees_list env outpoint).bind fun satRanges => ?_
  split
  · exact (lockless_pure _).frees
  refine (frees_containsOutput outpoint).bind fun indexed => ?_
  refine (frees_getUnspentOrUnconfirmedOutput env _ _).bind fun unspent => ?_
  split
  · exact (lockless_pure _).frees
  refine (frees_getTransactionInfo env _).bind fun info => ?_
  split
  · exact (lockless_pure none).frees
  split
  · exact (lockless_pure none).frees
  · exact (lockless_pure _).frees

end

/-! ### Outputs with their ranges -/

/-- Without the sat index, the guard is kept over a call that locks nothing. -/
theorem getUtxoRecursive_of_not_sats {env : Env} (hsats : env.config.indexSats = false)
    (outpoint : OutPoint) : Frees (getUtxoRecursive env outpoint) := by
  have hlist : list env outpoint = pure none := by
    rw [list, hsats]
    rfl
  refine frees_lock (lockless_read.bind fun content => ?_)
  split
  · exact lockless_pure none
  · rw [hlist]
    refine (lockless_pure none).bind fun satRanges => ?_
    exact (lockless_lift _).bind fun value => lockless_pure _

theorem getUtxoRecursive_of_not_indexed {env : Env} {content : Content} {outpoint : OutPoint}
    (h : content.tables.outpointToUtxoEntry outpoint = none) :
    getUtxoRecursive env outpoint ⟨false, content⟩ = (.done (.ok none), ⟨false, content⟩) := by
  refine lock_of_done (n := ⟨true, content⟩) ?_
  rw [read_bind, h]
  rfl

/-- With the sat index, an indexed output waits for the guard of its own call. -/
theorem getUtxoRecursive_of_indexed {env : Env} {content : Content} {outpoint : OutPoint}
    (hsats : env.config.indexSats = true)
    (h : (content.tables.outpointToUtxoEntry outpoint).isSome = true) :
    getUtxoRecursive env outpoint ⟨false, content⟩ = (.waits, ⟨true, content⟩) := by
  obtain ⟨entry, hentry⟩ := Option.isSome_iff_exists.mp h
  have hlist : list env outpoint ⟨true, content⟩ = (.waits, ⟨true, content⟩) := by
    have hheld : (⟨true, content⟩ : Mutex Content).held = true := rfl
    rw [list, hsats, if_neg (by decide)]
    exact lock_of_held hheld
  refine lock_of_waits ?_
  rw [read_bind, hentry]
  exact bind_of_waits hlist

theorem freesAt_getUtxoRecursive {env : Env} {content : Content} {outpoint : OutPoint} :
    FreesAt (getUtxoRecursive env outpoint) content ↔
      ¬(env.config.indexSats = true ∧
        (content.tables.outpointToUtxoEntry outpoint).isSome = true) := by
  constructor
  · rintro ⟨hwaits, -⟩ ⟨hsats, hindexed⟩
    rw [getUtxoRecursive_of_indexed hsats hindexed] at hwaits
    exact hwaits rfl
  · intro h
    cases hsats : env.config.indexSats with
    | false => exact getUtxoRecursive_of_not_sats hsats outpoint content
    | true =>
      cases hentry : content.tables.outpointToUtxoEntry outpoint with
      | none =>
        rw [FreesAt, getUtxoRecursive_of_not_indexed hentry]
        exact ⟨by rintro ⟨⟩, rfl⟩
      | some entry =>
        rw [hentry] at h
        exact absurd ⟨hsats, rfl⟩ h

theorem answers_of_not_sats {env : Env} (hsats : env.config.indexSats = false) (content : Content)
    (outpoint : OutPoint) : Answers env content outpoint := by
  intro entry parsed hentry hparsed
  have hlist : list env outpoint = pure none := by
    rw [list, hsats]
    rfl
  have hvalue : entryValue env entry = .ok parsed.totalValue := by
    rw [entryValue, hparsed]
    rfl
  refine ⟨⟨none, parsed.totalValue⟩, ?_, ?_, fun ranges h => (nomatch h)⟩
  · refine congrArg Prod.fst (lock_of_done (n := ⟨true, content⟩) ?_)
    rw [read_bind, hentry]
    dsimp only
    rw [hlist, pure_bind_apply, hvalue]
    rfl
  · rw [hlist]
    rfl

/-! ### Steps and runs -/

theorem freesAt_ignore {α : Type} {x : Guarded Content α} {content : Content} :
    FreesAt (ignore x) content ↔ FreesAt x content := by
  rw [FreesAt, FreesAt, ignore]
  rcases hresult : x ⟨false, content⟩ with ⟨ending, m'⟩
  cases ending with
  | waits =>
    rw [bind_of_waits hresult]
    exact ⟨fun h => absurd rfl h.1, fun h => absurd rfl h.1⟩
  | done outcome =>
    cases outcome with
    | error fault =>
      rw [bind_of_error hresult]
      exact ⟨fun h => ⟨(by rintro ⟨⟩), h.2⟩, fun h => ⟨(by rintro ⟨⟩), h.2⟩⟩
    | ok a =>
      rw [bind_of_ok hresult]
      exact ⟨fun h => ⟨(by rintro ⟨⟩), h.2⟩, fun h => ⟨(by rintro ⟨⟩), h.2⟩⟩

section

variable [Digests] (env : Env)

/-- A step from the free mutex meets the statement exactly when it calls no `list` under a guard. -/
theorem meets_iff {m : Mutex Content} (hfree : m.held = false) (step : Step) :
    Meets env m step ↔ ¬ListsUnderGuard env m step := by
  obtain ⟨held, content⟩ := m
  obtain rfl : held = false := hfree
  -- every other step frees the mutex whatever the database has
  have hmeets : ∀ step, Frees (step.perform env) →
      (∀ outpoint, step ≠ .call (.getUtxoRecursive outpoint)) →
      (Meets env ⟨false, content⟩ step ↔ ¬ListsUnderGuard env ⟨false, content⟩ step) := by
    intro step hfrees hother
    refine iff_of_true ⟨rfl, (hfrees content).1, (hfrees content).2, ?_⟩ ?_
    · exact fun outpoint h => absurd h (hother outpoint)
    · rintro ⟨-, outpoint, h, -⟩
      exact hother outpoint h
  cases step with
  | commit content => exact hmeets _ (frees_lock (lockless_write content)) (by simp)
  | call operation =>
    cases operation with
    | list outpoint => exact hmeets _ (frees_ignore (frees_list env outpoint)) (by simp)
    | find sat =>
      exact hmeets _ (frees_ignore (frees_lock (lockless_read.bind fun _ => lockless_lift _))) (by simp)
    | findRange rangeStart rangeEnd =>
      exact hmeets _ (frees_ignore (frees_lock (lockless_read.bind fun _ => lockless_lift _))) (by simp)
    | containsOutput outpoint =>
      exact hmeets _ (frees_ignore (frees_containsOutput outpoint)) (by simp)
    | getOutputInfo outpoint =>
      exact hmeets _ (frees_ignore (frees_getOutputInfo env outpoint)) (by simp)
    | getSatBalancesForOutputs outputs =>
      exact hmeets _ (frees_ignore (frees_lock (lockless_read.bind fun _ => lockless_lift _))) (by simp)
    | blockTime height => exact hmeets _ (frees_ignore (frees_blockTime env height)) (by simp)
    | status =>
      exact hmeets _ (frees_ignore (frees_lock (lockless_read.bind fun _ => lockless_pure _))) (by simp)
    | info => exact hmeets _ (frees_ignore (frees_info env)) (by simp)
    | handleReorg height depth => exact hmeets _ (frees_handleReorg env height depth) (by simp)
    | getUtxoRecursive outpoint =>
      have hlists : ListsUnderGuard env ⟨false, content⟩ (.call (.getUtxoRecursive outpoint)) ↔
          env.config.indexSats = true ∧
            (content.tables.outpointToUtxoEntry outpoint).isSome = true := by
        constructor
        · rintro ⟨hsats, _, h, hindexed⟩
          cases h
          exact ⟨hsats, hindexed⟩
        · exact fun ⟨hsats, hindexed⟩ => ⟨hsats, outpoint, rfl, hindexed⟩
      rw [hlists, ← freesAt_getUtxoRecursive]
      constructor
      · rintro ⟨-, hwaits, hheld, -⟩
        exact freesAt_ignore.mp ⟨hwaits, hheld⟩
      · intro hfrees
        obtain ⟨hwaits, hheld⟩ := freesAt_ignore.mpr hfrees
        refine ⟨rfl, hwaits, hheld, fun outpoint' h => ?_⟩
        cases h
        cases hsats : env.config.indexSats with
        | false => exact answers_of_not_sats hsats content outpoint
        | true =>
          intro entry parsed hentry
          have hnot := freesAt_getUtxoRecursive.mp hfrees
          rw [hentry] at hnot
          exact absurd ⟨hsats, rfl⟩ hnot

/-- In a run of queries, recoveries and commits each step takes the mutex only while it is free, and
answers, exactly when no step of it asks for an indexed output with the sat index. -/
theorem locks_only_free_iff (content : Content) (steps : List Step) :
    EachStep (execute env) (Meets env) ⟨false, content⟩ steps ↔
      EachStep (execute env) (fun m step => ¬ListsUnderGuard env m step) ⟨false, content⟩ steps := by
  have hkeep : ∀ m step, m.held = false → Meets env m step → (execute env m step).held = false :=
    fun m step _ h => h.2.2.1
  have hstep : ∀ (m : Mutex Content) step, m.held = false →
      (Meets env m step ↔ ¬ListsUnderGuard env m step) := fun m step h => meets_iff env h step
  exact eachStep_congr hstep hkeep rfl

end

/-- An index with the sat index. -/
def satEnv : Env where
  config := ⟨true, false⟩
  settings := ⟨10, 2, 5000, none, 0, true, false⟩
  rows := fun _ => []
  genesisTxid := Bytes32.replicate 0
  genesisOutputs := []
  rawTransactionLookup := false
  getTxOut := fun _ _ => .ok none
  getRawTransactionInfo := fun _ => .ok none
  secondsFromNow := fun _ => .ok 0
  realDiskSize := .ok 0

/-- An output of the sats of the first block. -/
def firstOutput : OutPoint := ⟨Bytes32.replicate 1, 0⟩

/-- A database with this output. -/
def oneOutput : Content where
  dir.store.tables := putUtxoEntry Tables.empty firstOutput
    (some (UtxoEntry.pushed ⟨true, false⟩ [(0, 5000000000)] 0 []))
  dir.store.lastSavepointHeight := 0
  dir.savepoints := .empty
  counters := ⟨fun _ => 0, []⟩
  savepointCounters := fun _ => ⟨fun _ => 0, []⟩

section

attribute [local instance] Format.sha256Digests

/-- The query of the one output waits for its own guard. -/
theorem waits_for_itself :
    ¬Meets satEnv ⟨false, oneOutput⟩ (.call (.getUtxoRecursive firstOutput)) := by
  rw [meets_iff satEnv rfl, not_not]
  refine ⟨rfl, firstOutput, rfl, ?_⟩
  simp [Content.tables, oneOutput, putUtxoEntry]

end

end Lord.Index.Query
