import Lord.Index.UpdateCall
import Lord.Lib.HashChain
import Lord.Lib.Runs

/-! The headers of the index in every state of a machine: each names the hash of the one below it, and
the savepoints hold such chains too. -/

namespace Lord.Index

open Bitcoin Ots HashChain

/-! ### Blocks and commits -/

section Tables

variable {config : IndexConfig}

theorem foldlM_keeps {ε α β γ : Type} {f : β → α → Except ε β} {g : β → γ} {xs : List α} {b b' : β}
    (h : ∀ b x b', f b x = .ok b' → g b' = g b) (hrun : xs.foldlM f b = .ok b') : g b' = g b := by
  induction xs generalizing b with
  | nil =>
    cases hrun
    rfl
  | cons x rest ih =>
    rw [List.foldlM_cons] at hrun
    obtain ⟨next, hnext, hrest⟩ := bind_eq_ok.mp hrun
    exact (ih hrest).trans (h b x next hnext)

theorem takeEntry_headers {s s' : IndexState} {outpoint : OutPoint} {entry : Bytes}
    (h : takeEntry config s outpoint = .ok (entry, s')) : s'.tables.headers = s.tables.headers := by
  unfold takeEntry at h
  split at h
  · cases h
    rfl
  · split at h
    · cases h
    · split at h
      · split at h
        · cases h
        · split at h
          · cases h
            rfl
          · cases h
      · cases h
        rfl

theorem takeEntries_headers {s s' : IndexState} {outpoints : List OutPoint} {entries : List Bytes}
    (h : takeEntries config s outpoints = .ok (entries, s')) :
    s'.tables.headers = s.tables.headers := by
  induction outpoints generalizing s entries with
  | nil =>
    cases h
    rfl
  | cons outpoint rest ih =>
    obtain ⟨⟨entry, middle⟩, hfirst, h⟩ := bind_eq_ok.mp h
    obtain ⟨⟨others, last⟩, hrest, h⟩ := bind_eq_ok.mp h
    cases h
    exact (ih hrest).trans (takeEntry_headers hfirst)

theorem indexTransaction_headers {coinbase : Bool} {st st' : BlockState}
    {tx : Transaction × Bytes32} (h : indexTransaction config coinbase st tx = .ok st') :
    st'.index.tables.headers = st.index.tables.headers := by
  unfold indexTransaction at h
  dsimp only at h
  -- the entries come from nowhere or from the tables, and both ways go on alike
  split at h
  all_goals
    obtain ⟨⟨entries, index⟩, htake, h⟩ := bind_eq_ok.mp h
    have hindex : index.tables.headers = st.index.tables.headers := by
      first
      | exact takeEntries_headers htake
      | exact congrArg (fun taken => taken.2.tables.headers) (Except.ok.inj htake).symm
    obtain ⟨parsed, -, h⟩ := bind_eq_ok.mp h
    split at h
    · cases h
    · split at h
      · obtain ⟨input, -, h⟩ := bind_eq_ok.mp h
        obtain ⟨⟨ranges, leftover, rows⟩, -, h⟩ := bind_eq_ok.mp h
        cases h
        exact hindex
      · cases h
        exact hindex

theorem recordLost_headers {st : BlockState} {s : IndexState}
    (h : recordLost config st = .ok s) : s.tables.headers = st.index.tables.headers := by
  unfold recordLost at h
  dsimp only at h
  split at h
  · cases h
    rfl
  · split at h
    · cases h
    · cases h
      rfl

/-- A block puts its header behind the others. -/
theorem indexBlock_headers {s s' : IndexState} {block : BlockData}
    (h : indexBlock config s block = .ok s') :
    s'.tables.headers = s.tables.headers ++ [block.header] := by
  unfold indexBlock at h
  dsimp only at h
  split at h
  · obtain ⟨middle, hentries, h⟩ := bind_eq_ok.mp h
    cases h
    obtain ⟨first, hfirst, hentries⟩ := bind_eq_ok.mp hentries
    obtain ⟨second, hsecond, hlost⟩ := bind_eq_ok.mp hentries
    have hkeeps := fun coinbase b x b' => @indexTransaction_headers config coinbase b b' x
    have hother := foldlM_keeps (g := fun st => st.index.tables.headers) (hkeeps false) hfirst
    have hcoinbase := foldlM_keeps (g := fun st => st.index.tables.headers) (hkeeps true) hsecond
    have hsame : middle.tables.headers = s.tables.headers :=
      (recordLost_headers hlost).trans (hcoinbase.trans hother)
    exact congrArg (· ++ [block.header]) hsame
  · obtain ⟨middle, hsame, h⟩ := bind_eq_ok.mp h
    cases hsame
    cases h
    rfl

theorem commitEntry_headers {tables tables' : Tables} {cached : Σ _ : OutPoint, Bytes}
    (h : commitEntry config tables cached = .ok tables') : tables'.headers = tables.headers := by
  unfold commitEntry at h
  dsimp only at h
  split at h
  all_goals
    obtain ⟨entry, -, h⟩ := bind_eq_ok.mp h
    split at h
    · split at h
      · cases h
      · rw [Result.outcome_eq_ok, putScriptPubkey] at h
        split at h
        · cases h
        · cases h
          rfl
    · cases h
      rfl

theorem commit_headers {s s' : IndexState} {order : CacheOrder}
    (h : commit config s order = .ok s') : s'.tables.headers = s.tables.headers := by
  obtain ⟨tables, hfold, h⟩ := bind_eq_ok.mp h
  cases h
  exact foldlM_keeps (g := Tables.headers) (fun _ _ _ => commitEntry_headers) hfold

end Tables

/-! ### Savepoints -/

section Savepoints

variable {config : IndexConfig} {settings : UpdaterSettings} {dir : IndexDir}

/-- The savepoints after an update of them at a height: none is new but a copy of the database. -/
structure SavepointsUpdated (dir : IndexDir) (height : Nat) (dir' : IndexDir) : Prop where
  tables : dir'.store.tables = dir.store.tables
  entries : ∀ entry ∈ dir'.savepoints.entries,
    entry ∈ dir.savepoints.entries ∨ entry = (height, dir.store)

theorem SavepointsUpdated.refl (dir : IndexDir) (height : Nat) :
    SavepointsUpdated dir height dir :=
  ⟨rfl, fun _ => .inl⟩

theorem pruneSavepoints_store (settings : UpdaterSettings) (dir : IndexDir) :
    (pruneSavepoints settings dir).store = dir.store := by
  unfold pruneSavepoints
  split
  · split <;> rfl
  · rfl

theorem mem_pruneSavepoints {entry : Nat × Store}
    (h : entry ∈ (pruneSavepoints settings dir).savepoints.entries) :
    entry ∈ dir.savepoints.entries := by
  unfold pruneSavepoints at h
  split at h
  · split at h
    · exact ((SortedMap.mem_entries_erase _).mp h).1
    · exact h
  · exact h

theorem copyToSavepoint_eq_ok {height : Nat} {overwrite : Result Unit} {dir' : IndexDir}
    (h : copyToSavepoint dir height overwrite = .ok dir') :
    dir' = { dir with savepoints := dir.savepoints.insert height dir.store } := by
  unfold copyToSavepoint at h
  split at h
  · split at h
    · cases h
    · exact (Except.ok.inj h).symm
  · exact (Except.ok.inj h).symm

theorem updateSavepoints_updated (settings : UpdaterSettings) (dir : IndexDir) (height : Nat)
    (env : SavepointEnv) :
    SavepointsUpdated dir height (updateSavepoints settings dir height env).2 := by
  have hprune : SavepointsUpdated dir height (pruneSavepoints settings dir) :=
    ⟨congrArg Store.tables (pruneSavepoints_store settings dir), fun _ h => .inl (mem_pruneSavepoints h)⟩
  unfold updateSavepoints
  split
  · exact .refl dir height
  · split
    · exact .refl dir height
    · split
      · exact .refl dir height
      · exact .refl dir height
      · dsimp only
        split
        · exact hprune
        · rename_i copied hcopy
          obtain rfl := copyToSavepoint_eq_ok hcopy
          refine ⟨hprune.tables, fun entry hentry => ?_⟩
          rcases (SortedMap.mem_entries_insert _).mp hentry with rfl | ⟨hold, -⟩
          · right
            rw [pruneSavepoints_store]
          · exact .inl (mem_pruneSavepoints hold)

theorem SavepointsUpdated.of_eq {height : Nat} {env : SavepointEnv} {dir' : IndexDir}
    (h : dir' = (updateSavepoints settings dir height env).2) : SavepointsUpdated dir height dir' := by
  rw [h]
  exact updateSavepoints_updated settings dir height env

/-- A commit fails and leaves the database, or it writes the tables and updates the savepoints. -/
theorem commitIndex_cases (config : IndexConfig) (settings : UpdaterSettings) (dir : IndexDir)
    (index : IndexState) (height : Nat) (order : CacheOrder) (env : SavepointEnv) :
    (∃ fault, commitIndex config settings dir index height order env = (.error (.fault fault), dir)) ∨
    ∃ tables, tables.headers = index.tables.headers ∧
      (commitIndex config settings dir index height order env).2 =
        (updateSavepoints settings { dir with store := { dir.store with tables } } height env).2 ∧
      ∀ index', (commitIndex config settings dir index height order env).1 = .ok index' →
        index'.tables = tables := by
  unfold commitIndex
  cases hcommit : commit config index order with
  | error fault => exact .inl ⟨fault, rfl⟩
  | ok committed =>
    right
    refine ⟨committed.tables, commit_headers hcommit, ?_⟩
    dsimp only
    split
    · rename_i heq
      rw [heq]
      exact ⟨rfl, nofun⟩
    · rename_i heq
      rw [heq]
      exact ⟨rfl, fun index' h => by rw [← Except.ok.inj h]⟩

end Savepoints

/-! ### Blocks of a pass -/

section Blocks

variable [Digests] {config : IndexConfig} {settings : UpdaterSettings} {chain : List BlockData}
  {dir : IndexDir} {pass : Pass} {block : BlockData} {env : ReceiveEnv}

/-- A pass after a block that it indexed. -/
structure Received (pass : Pass) (block : BlockData) (pass' : Pass) : Prop where
  headers : pass'.index.tables.headers = pass.index.tables.headers ++ [block.header]
  height : pass'.height = pass.height + 1
  starting : pass'.startingIndexHeight = pass.startingIndexHeight
  channel : pass'.channel = pass.channel ∧ pass'.fetchHeight = pass.fetchHeight ∧
      pass'.fetching = pass.fetching ∨
    pass'.channel = [] ∧ pass'.fetching = false

omit [Digests] in
theorem received_close_iff (stops : Bool) (index : IndexState) (uncommitted : Nat)
    (hheaders : index.tables.headers = pass.index.tables.headers ++ [block.header]) :
    Received pass block (if stops then Pass.close
        { pass with index, height := pass.height + 1, uncommitted }
      else { pass with index, height := pass.height + 1, uncommitted }) := by
  cases stops with
  | true => exact ⟨hheaders, rfl, rfl, .inr ⟨rfl, rfl⟩⟩
  | false => exact ⟨hheaders, rfl, rfl, .inl ⟨rfl, rfl, rfl⟩⟩

omit [Digests] in
/-- A pass that goes on without a commit needs no savepoint. -/
theorem not_required_of_commitDue {store : Store} {headers : Result Nat}
    (h : commitDue settings store pass headers = .ok false)
    (htest : settings.integrationTest = false) (henabled : settings.savepointsEnabled = true) :
    ∃ count, headers = .ok count ∧
      isSavepointRequired settings count store.lastSavepointHeight pass.height = .ok false := by
  unfold commitDue at h
  rw [htest, henabled] at h
  split at h
  · cases h
  · split at h
    · simp at *
    · split at h
      · cases h
      · rename_i count
        exact ⟨count, rfl, mapError_eq_ok.mp h⟩

/-- A block fails and leaves the directory, or it is indexed; and then the pass may commit. -/
theorem receiveBlock_cases (config : IndexConfig) (settings : UpdaterSettings)
    (chain : List BlockData) (dir : IndexDir) (pass : Pass) (block : BlockData) (env : ReceiveEnv) :
    ((receiveBlock config settings chain dir pass block env).2 = dir ∧
      ∀ pass', (receiveBlock config settings chain dir pass block env).1 = .ok pass' →
        detectReorg settings (nodeBlockHash chain env.blockHashFault) pass.index.tables
          block.header.prevBlockhash pass.height = .ok () ∧
        Received pass block pass' ∧ pass'.uncommitted = pass.uncommitted + 1 ∧
        (settings.integrationTest = false → settings.savepointsEnabled = true →
          ∃ headers, env.headers = .ok headers ∧
            isSavepointRequired settings headers dir.store.lastSavepointHeight (pass.height + 1) =
              .ok false)) ∨
    detectReorg settings (nodeBlockHash chain env.blockHashFault) pass.index.tables
        block.header.prevBlockhash pass.height = .ok () ∧
    ∃ tables, tables.headers = pass.index.tables.headers ++ [block.header] ∧
      (receiveBlock config settings chain dir pass block env).2 =
        (updateSavepoints settings { dir with store := { dir.store with tables } } (pass.height + 1)
          env.savepoint).2 ∧
      ∀ pass', (receiveBlock config settings chain dir pass block env).1 = .ok pass' →
        Received pass block pass' ∧ pass'.uncommitted = 0 := by
  unfold receiveBlock
  cases hdetect : detectReorg settings (nodeBlockHash chain env.blockHashFault) pass.index.tables
      block.header.prevBlockhash pass.height with
  | error err => exact .inl ⟨rfl, nofun⟩
  | ok =>
    cases hindex : indexBlock config pass.index block with
    | error fault => exact .inl ⟨rfl, nofun⟩
    | ok index =>
      have hheaders := indexBlock_headers hindex
      dsimp only
      split
      · exact .inl ⟨rfl, nofun⟩
      · rename_i hdue
        refine .inl ⟨rfl, fun pass' h => ⟨rfl, ?_, ?_, not_required_of_commitDue hdue⟩⟩
        · rw [← Except.ok.inj h]
          exact received_close_iff env.shuttingDown index (pass.uncommitted + 1) hheaders
        · rw [← Except.ok.inj h]
          split <;> rfl
      · rcases commitIndex_cases config settings dir index (pass.height + 1) env.order
            env.savepoint with ⟨fault, heq⟩ | ⟨tables, htables, hupdated, hok⟩
        · rw [heq]
          exact .inl ⟨rfl, nofun⟩
        · refine .inr ⟨rfl, tables, htables.trans hheaders, ?_⟩
          split
          · rename_i heq
            rw [heq] at hupdated
            exact ⟨hupdated, nofun⟩
          · rename_i committed dir' heq
            rw [heq] at hupdated
            have hcommitted : committed.tables = tables := hok committed (by rw [heq])
            refine ⟨hupdated, fun pass' h => ?_⟩
            rw [← Except.ok.inj h]
            refine ⟨received_close_iff _ committed 0 (by rw [hcommitted, htables, hheaders]), ?_⟩
            split <;> rfl

/-- A block that is accepted names the last block of the index, unless the index is empty. -/
theorem detectReorg_eq_ok {blockHash : BlockHashes} {tables : Tables} {prevBlockhash : Bytes32}
    (h : detectReorg settings blockHash tables prevBlockhash tables.headers.length = .ok ())
    {last : Header} (hlast : tables.headers.getLast? = some last) :
    prevBlockhash = last.blockHash := by
  have hfound : blockHashInTxn tables (checkedSub tables.headers.length 1) = some last.blockHash := by
    rw [List.getLast?_eq_getElem?] at hlast
    obtain ⟨hlt, -⟩ := List.getElem?_eq_some_iff.mp hlast
    rw [checkedSub, if_pos (by omega), blockHashInTxn, hlast]
    rfl
  rw [detectReorg, hfound] at h
  dsimp only at h
  split at h
  · rename_i heq
    exact heq.symm
  · split at h <;> cases h

end Blocks

/-! ### Passes over a database -/

/-- A running pass: its headers are those of the database and the ones it has put since, each at the
next height. -/
structure PassBegun (store : Store) (pass : Pass) : Prop where
  height : pass.height = pass.index.tables.headers.length
  begun : store.tables.headers <+: pass.index.tables.headers
  starting : pass.startingIndexHeight ≤ store.height
  counted : store.height + pass.uncommitted = pass.height

theorem PassBegun.settled {store : Store} {pass : Pass} (h : PassBegun store pass)
    (hnone : pass.uncommitted = 0) : store.tables.headers = pass.index.tables.headers := by
  refine h.begun.eq_of_length ?_
  have hcounted := h.counted
  rw [hnone, h.height] at hcounted
  exact hcounted

def Machine.Begun (m : Machine) : Prop :=
  ∀ pass, m.phase = .running pass → PassBegun m.dir.store pass

/-- What a step does to the directory: nothing, or a commit of more headers and an update of the
savepoints, or a recovery. -/
inductive DirStep (settings : UpdaterSettings) (m : Machine) : Action → IndexDir → Prop
  | same {action : Action} : DirStep settings m action m.dir
  | commit {action : Action} {tables : Tables} {dir : IndexDir}
      (hbegun : m.dir.store.tables.headers <+: tables.headers)
      (hupdated : SavepointsUpdated { m.dir with store := { m.dir.store with tables } }
        tables.headers.length dir) : DirStep settings m action dir
  | recover {height depth : Nat} {dir : IndexDir} (hphase : m.phase = .reorged height depth)
      (hdir : handleReorg settings m.dir height depth = .ok dir) : DirStep settings m .recover dir

section Steps

variable [Digests] {config : IndexConfig} {settings : UpdaterSettings} {m : Machine}

omit [Digests] in
theorem Machine.begun_of_phase (h : ∀ pass, m.phase ≠ .running pass) : m.Begun :=
  fun pass hphase => absurd hphase (h pass)

omit [Digests] in
theorem Machine.begun_start (chain : List BlockData) : (Machine.start chain).Begun :=
  Machine.begun_of_phase nofun

omit [Digests] in
theorem Machine.begun_failed (m : Machine) (err : UpdateError) : (m.failed err).Begun := by
  cases err <;> exact Machine.begun_of_phase nofun

omit [Digests] in
@[simp] theorem Machine.dir_failed (m : Machine) (err : UpdateError) : (m.failed err).dir = m.dir := by
  cases err <;> rfl

theorem startPass_begun {chain : List BlockData} {store : Store} {blockCount : Result Unit}
    {fault : Nat → Option Error} {pass : Pass}
    (h : startPass settings chain store blockCount fault = .ok pass) : PassBegun store pass := by
  unfold startPass at h
  split at h
  · cases h
  · split at h
    · cases h
    · cases h
      exact ⟨rfl, List.prefix_rfl, le_refl _, rfl⟩

theorem startPass_uncommitted {chain : List BlockData} {store : Store} {blockCount : Result Unit}
    {fault : Nat → Option Error} {pass : Pass}
    (h : startPass settings chain store blockCount fault = .ok pass) : pass.uncommitted = 0 := by
  unfold startPass at h
  split at h
  · cases h
  · split at h
    · cases h
    · cases h
      rfl

omit [Digests] in
@[simp] theorem Pass.height_fetch (chain : List BlockData) (pass : Pass) (givesUp : Bool) :
    (pass.fetch settings chain givesUp).height = pass.height := by
  unfold Pass.fetch
  split
  · rfl
  · split
    · rfl
    · split <;> rfl

omit [Digests] in
theorem PassBegun.fetch {store : Store} {pass : Pass} (h : PassBegun store pass)
    (chain : List BlockData) (givesUp : Bool) :
    PassBegun store (pass.fetch settings chain givesUp) := by
  unfold Pass.fetch
  split
  · exact h
  · split
    · exact { h with }
    · split <;> exact { h with }

omit [Digests] in
theorem PassBegun.received {store store' : Store} {pass pass' : Pass} {block : BlockData}
    (h : PassBegun store pass) (hreceived : Received pass block pass')
    (hstore : store' = store ∧ pass'.uncommitted = pass.uncommitted + 1 ∨
      store'.tables.headers = pass.index.tables.headers ++ [block.header] ∧ pass'.uncommitted = 0) :
    PassBegun store' pass' where
  height := by
    rw [hreceived.height, hreceived.headers, List.length_append, h.height]
    rfl
  begun := by
    rw [hreceived.headers]
    rcases hstore with ⟨rfl, -⟩ | ⟨heq, -⟩
    · exact h.begun.trans (List.prefix_append _ _)
    · rw [heq]
  starting := by
    rw [hreceived.starting]
    rcases hstore with ⟨rfl, -⟩ | ⟨heq, -⟩
    · exact h.starting
    · refine h.starting.trans ?_
      rw [Store.height, Store.height, heq, List.length_append]
      exact h.begun.length_le.trans (Nat.le_add_right _ _)
  counted := by
    have hcounted := h.counted
    rw [hreceived.height]
    rcases hstore with ⟨rfl, hcount⟩ | ⟨heq, hcount⟩
    · omega
    · rw [hcount, Store.height, heq, List.length_append, ← h.height]
      rfl

/-- A block of a pass that began. -/
theorem Machine.Begun.receive (h : m.Begun) {pass : Pass} (hphase : m.phase = .running pass)
    (env : ReceiveEnv) : (m.step config settings (.receive env)).Begun ∧
      DirStep settings m (.receive env) (m.step config settings (.receive env)).dir := by
  have hpass := h pass hphase
  simp only [Machine.step, hphase]
  cases hchannel : pass.channel with
  | nil => exact ⟨h, .same⟩
  | cons block rest =>
    have hrest : PassBegun m.dir.store { pass with channel := rest } := { hpass with }
    dsimp only
    rcases receiveBlock_cases config settings m.bestChain m.dir { pass with channel := rest } block env
      with ⟨hdir, hok⟩ | ⟨-, tables, htables, hupdated, hok⟩
    · split
      · rename_i err dir' heq
        rw [heq] at hdir
        obtain rfl : dir' = m.dir := hdir
        exact ⟨m.begun_failed err, by rw [Machine.dir_failed]; exact .same⟩
      · rename_i pass' dir' heq
        rw [heq] at hdir hok
        obtain rfl : dir' = m.dir := hdir
        obtain ⟨-, hreceived, hcount, -⟩ := hok pass' rfl
        refine ⟨fun running hrunning => ?_, .same⟩
        cases hrunning
        exact hrest.received hreceived (.inl ⟨rfl, hcount⟩)
    · have hlength : tables.headers.length = pass.height + 1 := by
        rw [htables, List.length_append, hpass.height]
        rfl
      have hbegun : m.dir.store.tables.headers <+: tables.headers := by
        rw [htables]
        exact hpass.begun.trans (List.prefix_append _ _)
      have hdir : ∀ dir', (receiveBlock config settings m.bestChain m.dir
          { pass with channel := rest } block env).2 = dir' →
          DirStep settings m (.receive env) dir' := by
        rintro _ rfl
        refine .commit hbegun ?_
        rw [hlength]
        exact .of_eq hupdated
      split
      · rename_i err dir' heq
        exact ⟨Machine.begun_failed _ err, by rw [Machine.dir_failed]; exact hdir dir' (by rw [heq])⟩
      · rename_i pass' dir' heq
        rw [heq] at hupdated hok
        obtain ⟨hreceived, hcount⟩ := hok pass' rfl
        refine ⟨fun running hrunning => ?_, hdir dir' (by rw [heq])⟩
        cases hrunning
        exact hrest.received hreceived
          (.inr ⟨(congrArg Tables.headers (SavepointsUpdated.of_eq hupdated).tables).trans htables,
            hcount⟩)

omit [Digests] in
/-- The end of a pass leaves the directory, or it commits the headers of the pass. -/
theorem finishPass_cases (config : IndexConfig) (settings : UpdaterSettings) (dir : IndexDir)
    (pass : Pass) (order : CacheOrder) (savepoint : SavepointEnv) :
    ((finishPass config settings dir pass order savepoint).2 = dir ∧
      ((finishPass config settings dir pass order savepoint).1 = .ok () → pass.uncommitted = 0)) ∨
    0 < pass.uncommitted ∧ ∃ tables, tables.headers = pass.index.tables.headers ∧
      (finishPass config settings dir pass order savepoint).2 =
        (updateSavepoints settings { dir with store := { dir.store with tables } } pass.height
          savepoint).2 := by
  unfold finishPass
  split
  · rcases commitIndex_cases config settings dir pass.index pass.height order savepoint with
      ⟨fault, heq⟩ | ⟨tables, htables, hupdated, -⟩
    · rw [heq]
      exact .inl ⟨rfl, nofun⟩
    · right
      refine ⟨by assumption, tables, htables, ?_⟩
      split
      · rename_i heq
        rwa [heq] at hupdated
      · rename_i heq
        rwa [heq] at hupdated
  · rename_i hnone
    exact .inl ⟨rfl, fun _ => by omega⟩

omit [Digests] in
/-- A pass that ends without an error leaves its headers in the database. -/
theorem PassBegun.headers_finish {dir dir' : IndexDir} {pass : Pass}
    (hpass : PassBegun dir.store pass) {order : CacheOrder} {savepoint : SavepointEnv}
    (h : finishPass config settings dir pass order savepoint = (.ok (), dir')) :
    dir'.store.tables.headers = pass.index.tables.headers := by
  rcases finishPass_cases config settings dir pass order savepoint with
    ⟨hdir, hok⟩ | ⟨-, tables, htables, hupdated⟩
  · rw [h] at hdir hok
    obtain rfl : dir' = dir := hdir
    exact hpass.settled (hok rfl)
  · rw [h] at hupdated
    exact (congrArg Tables.headers (SavepointsUpdated.of_eq hupdated).tables).trans htables

omit [Digests] in
theorem PassBegun.dirStep_finish {pass : Pass} (hpass : PassBegun m.dir.store pass)
    (order : CacheOrder) (savepoint : SavepointEnv) :
    DirStep settings m (.finish order savepoint)
      (finishPass config settings m.dir pass order savepoint).2 := by
  rcases finishPass_cases config settings m.dir pass order savepoint with
    ⟨hdir, -⟩ | ⟨-, tables, htables, hupdated⟩
  · rw [hdir]
    exact .same
  · rw [hpass.height, ← htables] at hupdated
    exact .commit (by rw [htables]; exact hpass.begun) (.of_eq hupdated)

theorem Machine.Begun.finish (h : m.Begun) {pass : Pass} (hphase : m.phase = .running pass)
    (order : CacheOrder) (savepoint : SavepointEnv) :
    (m.step config settings (.finish order savepoint)).Begun ∧
      DirStep settings m (.finish order savepoint)
        (m.step config settings (.finish order savepoint)).dir := by
  simp only [Machine.step, hphase]
  split
  · have hdir := @PassBegun.dirStep_finish config settings m pass (h pass hphase) order savepoint
    split
    · rename_i heq
      rw [heq] at hdir
      exact ⟨Machine.begun_failed _ _, by rw [Machine.dir_failed]; exact hdir⟩
    · rename_i heq
      rw [heq] at hdir
      exact ⟨Machine.begun_of_phase nofun, hdir⟩
  · exact ⟨h, .same⟩

/-- Every step keeps a pass over its database, and does one thing to the directory. -/
theorem Machine.Begun.step (h : m.Begun) (action : Action) :
    (m.step config settings action).Begun ∧
      DirStep settings m action (m.step config settings action).dir := by
  have hstays : m.Begun ∧ DirStep settings m action m.dir := ⟨h, .same⟩
  cases action with
  | bestChain chain =>
    rw [Machine.step_bestChain]
    exact ⟨h, .same⟩
  | restart =>
    rw [Machine.step_restart]
    exact ⟨Machine.begun_of_phase nofun, .same⟩
  | update =>
    cases hphase : m.phase with
    | idle | returned result =>
      simp only [Machine.step, hphase]
      exact ⟨Machine.begun_of_phase nofun, .same⟩
    | ready | running pass | reorged height depth => simpa only [Machine.step, hphase] using hstays
  | start blockCount fault =>
    cases hphase : m.phase with
    | ready =>
      simp only [Machine.step, hphase]
      split
      · exact ⟨m.begun_failed _, by rw [Machine.dir_failed]; exact .same⟩
      · rename_i pass hstart
        refine ⟨fun running hrunning => ?_, .same⟩
        cases hrunning
        exact startPass_begun hstart
    | idle | running pass | reorged height depth | returned result =>
      simpa only [Machine.step, hphase] using hstays
  | fetch givesUp =>
    cases hphase : m.phase with
    | running pass =>
      simp only [Machine.step, hphase]
      refine ⟨fun running hrunning => ?_, .same⟩
      cases hrunning
      exact (h pass hphase).fetch m.bestChain givesUp
    | idle | ready | reorged height depth | returned result =>
      simpa only [Machine.step, hphase] using hstays
  | receive env =>
    cases hphase : m.phase with
    | running pass => exact h.receive hphase env
    | idle | ready | reorged height depth | returned result =>
      simpa only [Machine.step, hphase] using hstays
  | finish order savepoint =>
    cases hphase : m.phase with
    | running pass => exact h.finish hphase order savepoint
    | idle | ready | reorged height depth | returned result =>
      simpa only [Machine.step, hphase] using hstays
  | recover =>
    cases hphase : m.phase with
    | reorged height depth =>
      simp only [Machine.step, hphase]
      split
      · exact ⟨Machine.begun_of_phase nofun, .same⟩
      · rename_i dir' hdir
        exact ⟨Machine.begun_of_phase nofun, .recover hphase hdir⟩
    | idle | ready | running pass | returned result =>
      simpa only [Machine.step, hphase] using hstays

omit [Digests] in
/-- A recovery finds a savepoint when one lies at or before the fork. -/
theorem savepointHeightForReorg_isOk {savepoints : List Nat} {height depth : Nat} :
    (∃ savepointHeight, savepointHeightForReorg savepoints height depth = .ok savepointHeight) ↔
      ∃ savepoint ∈ savepoints, savepoint ≤ height - depth := by
  simp only [savepointHeightForReorg, okOr_eq_ok]
  constructor
  · rintro ⟨latest, hlatest⟩
    obtain ⟨hmem, hle⟩ := List.mem_filter.mp (List.max?_mem hlatest)
    exact ⟨latest, hmem, of_decide_eq_true hle⟩
  · rintro ⟨savepoint, hmem, hle⟩
    refine Option.ne_none_iff_exists'.mp fun hnone => ?_
    rw [List.max?_eq_none_iff, List.filter_eq_nil_iff] at hnone
    exact hnone savepoint hmem (decide_eq_true hle)

omit [Digests] in
/-- A recovery puts the latest savepoint at or before the fork in the place of the database. -/
theorem handleReorg_eq_ok {dir dir' : IndexDir} {height depth : Nat}
    (h : handleReorg settings dir height depth = .ok dir') :
    ∃ savepointHeight snapshot,
      (dir.listSavepoints.filter (· ≤ height - depth)).max? = some savepointHeight ∧
      (savepointHeight, snapshot) ∈ dir.savepoints.entries ∧ dir' = { dir with store := snapshot } := by
  unfold handleReorg at h
  split at h
  · cases h
  · split at h
    · cases h
    · rename_i savepointHeight hheight
      split at h
      · cases h
      · rename_i snapshot hget
        rw [savepointHeightForReorg, okOr_eq_ok] at hheight
        exact ⟨savepointHeight, snapshot, hheight, (SortedMap.get_eq_some _).mp hget,
          (Except.ok.inj h).symm⟩

end Steps

end Lord.Index
