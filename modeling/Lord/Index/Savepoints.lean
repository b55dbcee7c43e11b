import Lord.Index.BestChain

/-! The retained savepoints beside the chain that the index is on, over runs with reorganisations. -/

namespace Lord.Index

open Bitcoin Ots HashChain Runs

section

variable [Digests] {config : IndexConfig} {settings : UpdaterSettings} {m : Machine}

/-- Every retained savepoint is a copy of the index at its height, on the chain that the index is on. -/
def SavepointsOnChain (m : Machine) : Prop :=
  ∀ entry ∈ m.dir.savepoints.entries, entry.1 ≤ m.dir.store.height ∧
    entry.2.tables.headers = m.dir.store.tables.headers.take entry.1

/-- A recovery finds a savepoint to go back to while another one lies above the fork.  One that is a
single block above it counts: its blocks are common, but the restored index has not reached it. -/
def LeavesAbandoned (settings : UpdaterSettings) (m : Machine) (action : Action) : Prop :=
  action = .recover ∧ settings.savepointsEnabled = true ∧
    ∃ height depth, m.phase = .reorged height depth ∧
      (∃ savepoint ∈ m.dir.listSavepoints, savepoint ≤ height - depth) ∧
      ∃ savepoint ∈ m.dir.listSavepoints, height - depth < savepoint

omit [Digests] in
theorem mem_listSavepoints {dir : IndexDir} {savepoint : Nat} :
    savepoint ∈ dir.listSavepoints ↔ ∃ snapshot, (savepoint, snapshot) ∈ dir.savepoints.entries := by
  constructor
  · intro h
    obtain ⟨⟨_, snapshot⟩, hmem, rfl⟩ := List.mem_map.mp h
    exact ⟨snapshot, hmem⟩
  · rintro ⟨snapshot, hmem⟩
    exact List.mem_map.mpr ⟨_, hmem, rfl⟩

omit [Digests] in
/-- A recovery goes through when a savepoint lies at or before the fork. -/
theorem handleReorg_isOk {dir : IndexDir} {height depth : Nat}
    (henabled : settings.savepointsEnabled = true)
    (h : ∃ savepoint ∈ dir.listSavepoints, savepoint ≤ height - depth) :
    ∃ dir', handleReorg settings dir height depth = .ok dir' := by
  obtain ⟨latest, hlatest⟩ := savepointHeightForReorg_isOk.mpr h
  have hmax := hlatest
  rw [savepointHeightForReorg, okOr_eq_ok] at hmax
  obtain ⟨snapshot, hsnapshot⟩ :=
    mem_listSavepoints.mp (List.mem_of_mem_filter (List.max?_mem hmax))
  have hget := (SortedMap.get_eq_some _).mpr hsnapshot
  refine ⟨{ dir with store := snapshot }, ?_⟩
  simp only [handleReorg, henabled, hlatest, hget, Bool.not_true, Bool.false_eq_true, if_false]

omit [Digests] in
/-- A commit keeps the savepoints below it. -/
theorem SavepointsOnChain.commit {tables : Tables} {dir : IndexDir} (h : SavepointsOnChain m)
    (hbegun : m.dir.store.tables.headers <+: tables.headers)
    (hupdated : SavepointsUpdated { m.dir with store := { m.dir.store with tables } }
      tables.headers.length dir) {m' : Machine} (hdir : m'.dir = dir) : SavepointsOnChain m' := by
  intro entry hentry
  rw [hdir] at hentry ⊢
  rw [Store.height, hupdated.tables]
  rcases hupdated.entries entry hentry with hold | rfl
  · obtain ⟨hle, hsnapshot⟩ := h entry hold
    obtain ⟨rest, hrest⟩ := hbegun
    rw [← hrest, List.length_append, List.take_append_of_le_length hle]
    exact ⟨hle.trans (Nat.le_add_right _ _), hsnapshot⟩
  · exact ⟨le_refl _, List.take_length.symm⟩

/-- A recovery keeps the savepoints at or before the fork, and drops none of the others. -/
theorem savepointsOnChain_recover (h : SavepointsOnChain m) :
    SavepointsOnChain (m.step config settings .recover) ↔ ¬LeavesAbandoned settings m .recover := by
  cases hphase : m.phase with
  | idle | ready | running pass | returned result =>
    simp only [Machine.step, hphase]
    refine iff_of_true h ?_
    rintro ⟨-, -, height, depth, hreorged, -⟩
    rw [hphase] at hreorged
    cases hreorged
  | reorged height depth =>
    simp only [Machine.step, hphase]
    cases hreorg : handleReorg settings m.dir height depth with
    | error fault =>
      refine iff_of_true h ?_
      rintro ⟨-, henabled, _, _, hreorged, hbelow, -⟩
      rw [hphase] at hreorged
      cases hreorged
      obtain ⟨dir, hdir⟩ := handleReorg_isOk henabled hbelow
      rw [hreorg] at hdir
      cases hdir
    | ok dir =>
      obtain ⟨latest, snapshot, hmax, hmem, rfl⟩ := handleReorg_eq_ok hreorg
      obtain ⟨hretained, hbelow⟩ := List.mem_filter.mp (List.max?_mem hmax)
      have hlatest : latest ≤ height - depth := of_decide_eq_true hbelow
      obtain ⟨hheight, hsnapshot⟩ := h _ hmem
      have hlength : snapshot.tables.headers.length = latest := by
        rw [hsnapshot, List.length_take]
        exact Nat.min_eq_left hheight
      constructor
      · rintro hkept ⟨-, -, _, _, hreorged, -, savepoint, habove, hlt⟩
        rw [hphase] at hreorged
        cases hreorged
        obtain ⟨other, hother⟩ := mem_listSavepoints.mp habove
        have hle : savepoint ≤ snapshot.tables.headers.length := (hkept _ hother).1
        omega
      · intro hnot entry hentry
        have henabled : settings.savepointsEnabled = true := by
          by_contra hdisabled
          rw [handleReorg, Bool.not_eq_true _ |>.mp hdisabled] at hreorg
          cases hreorg
        have hlisted : entry.1 ∈ m.dir.listSavepoints := mem_listSavepoints.mpr ⟨entry.2, hentry⟩
        have hfork : entry.1 ≤ height - depth := by
          by_contra habove
          exact hnot ⟨rfl, henabled, height, depth, hphase, ⟨latest, hretained, hlatest⟩, entry.1,
            hlisted, by omega⟩
        have hle : entry.1 ≤ latest :=
          (List.max?_eq_some_iff.mp hmax).2 _ (List.mem_filter.mpr ⟨hlisted, decide_eq_true hfork⟩)
        obtain ⟨-, hheaders⟩ := h entry hentry
        refine ⟨hle.trans (le_of_eq hlength.symm), ?_⟩
        show entry.2.tables.headers = snapshot.tables.headers.take entry.1
        rw [hheaders, hsnapshot, List.take_take, Nat.min_eq_left hle]

theorem savepointsOnChain_step (hbegun : m.Begun) (h : SavepointsOnChain m) (action : Action) :
    SavepointsOnChain (m.step config settings action) ↔ ¬LeavesAbandoned settings m action := by
  by_cases hrecover : action = .recover
  · rw [hrecover]
    exact savepointsOnChain_recover h
  · refine iff_of_true ?_ fun hleaves => hrecover hleaves.1
    obtain ⟨-, hdir⟩ := @Machine.Begun.step _ config settings m hbegun action
    generalize hnext : (m.step config settings action).dir = dir at hdir
    cases hdir with
    | same =>
      intro entry hentry
      rw [hnext] at hentry ⊢
      exact h entry hentry
    | commit hextends hupdated => exact h.commit hextends hupdated hnext
    | recover => exact absurd rfl hrecover

/-! ### The block at the fork -/

/-- The search reports the first depth at which the index and the node have the same block. -/
theorem searchFork_eq_recoverable {tables : Tables} {blockHash : BlockHashes}
    {height height' depth start count : Nat}
    (h : searchFork tables blockHash height (List.range' start count) = .recoverable height' depth) :
    height' = height ∧ start ≤ depth ∧
      blockHash (height - depth) = .ok (blockHashInTxn tables (checkedSub height depth)) ∧
      ∀ lower, start ≤ lower → lower < depth → ∃ hash, blockHash (height - lower) = .ok hash ∧
        blockHashInTxn tables (checkedSub height lower) ≠ hash := by
  induction count generalizing start with
  | zero => cases h
  | succ count ih =>
    rw [List.range'_succ, searchFork] at h
    cases hnode : blockHash (height - start) with
    | error err =>
      rw [hnode] at h
      cases h
    | ok hash =>
      rw [hnode] at h
      dsimp only at h
      split at h
      · rename_i heq
        obtain ⟨rfl, rfl⟩ := UpdateError.recoverable.inj h
        exact ⟨rfl, le_refl _, heq ▸ hnode, fun lower hle hlt => absurd hle (by omega)⟩
      · rename_i hne
        obtain ⟨hheight, hle, hfound, hlower⟩ := ih h
        refine ⟨hheight, by omega, hfound, fun lower hstart hlt => ?_⟩
        rcases Nat.eq_or_lt_of_le hstart with rfl | hless
        · exact ⟨hash, hnode, hne⟩
        · exact hlower lower hless hlt

theorem detectReorg_eq_recoverable {blockHash : BlockHashes} {tables : Tables}
    {prevBlockhash : Bytes32} {height height' depth : Nat}
    (h : detectReorg settings blockHash tables prevBlockhash height =
      .error (.recoverable height' depth)) :
    height' = height ∧ 0 < depth ∧
      blockHash (height - depth) = .ok (blockHashInTxn tables (checkedSub height depth)) ∧
      ∀ lower, 0 < lower → lower < depth → ∃ hash, blockHash (height - lower) = .ok hash ∧
        blockHashInTxn tables (checkedSub height lower) ≠ hash := by
  unfold detectReorg at h
  split at h
  · cases h
  · split at h
    · cases h
    · split at h
      · cases h
      · exact searchFork_eq_recoverable (Except.error.inj h)

variable {members : Set Header}

/-- The index that was compared and the node have the same headers up to the block at the fork, and no
further. -/
theorem take_eq_iff_of_recoverable (hinj : Set.InjOn Header.blockHash members) {tables : Tables}
    {chain : List BlockData} {fault : Nat → Option Error} (hheaders : HeaderChain members tables.headers)
    (hchain : HeaderChain members (chainHeaders chain)) {prevBlockhash : Bytes32} {height depth : Nat}
    (h : detectReorg settings (nodeBlockHash chain fault) tables prevBlockhash tables.headers.length =
      .error (.recoverable height depth)) (hdepth : depth ≤ height) {n : Nat}
    (hn : n ≤ tables.headers.length) :
    tables.headers.take n = (chainHeaders chain).take n ↔ n ≤ height - depth + 1 := by
  obtain ⟨rfl, hpos, hfound, hlower⟩ := detectReorg_eq_recoverable h
  constructor
  · intro hsame
    by_contra habove
    -- the search has compared the block behind the fork
    obtain ⟨lower, rfl⟩ : ∃ lower, depth = lower + 1 := ⟨depth - 1, by omega⟩
    obtain ⟨hash, hnode, hne⟩ := hlower lower (by omega) (by omega)
    have hnext : tables.headers[tables.headers.length - lower]? =
        (chainHeaders chain)[tables.headers.length - lower]? := by
      rw [← List.getElem?_take_of_lt (show tables.headers.length - lower < n by omega), hsame,
        List.getElem?_take_of_lt (by omega)]
    rw [checkedSub, if_pos (by omega), blockHashInTxn, hnext, chainHeaders, List.getElem?_map,
      Option.map_map] at hne
    rw [nodeBlockHash] at hnode
    split at hnode
    · cases hnode
    · exact hne (Except.ok.inj hnode)
  · intro hle
    obtain ⟨header, hheader⟩ : ∃ header,
        tables.headers[tables.headers.length - depth]? = some header :=
      ⟨_, List.getElem?_eq_getElem (by omega)⟩
    rw [checkedSub, if_pos hdepth, blockHashInTxn, hheader, nodeBlockHash] at hfound
    split at hfound
    · cases hfound
    · obtain ⟨block, hblock, hhash⟩ := Option.map_eq_some_iff.mp (Except.ok.inj hfound)
      have hshared : tables.headers.take (tables.headers.length - depth + 1) =
          (chainHeaders chain).take (tables.headers.length - depth + 1) := by
        refine take_eq_of_hash_eq hinj hheaders.linked hchain.linked hheaders.mem hchain.mem hheader ?_
          hhash.symm
        rw [chainHeaders, List.getElem?_map, hblock]
        rfl
      have htake := congrArg (List.take n) hshared
      rwa [List.take_take, List.take_take, Nat.min_eq_left hle] at htake

omit [Digests] in
/-- A commit reports no fork. -/
theorem commitIndex_error {dir : IndexDir} {index : IndexState} {height : Nat} {order : CacheOrder}
    {env : SavepointEnv} {err : UpdateError}
    (h : (commitIndex config settings dir index height order env).1 = .error err) :
    ∃ fault, err = .fault fault := by
  unfold commitIndex at h
  split at h
  · exact ⟨_, (Except.error.inj h).symm⟩
  · dsimp only at h
    split at h
    · rename_i heq
      obtain rfl := Except.error.inj h
      have hupdate := congrArg Prod.fst heq
      unfold updateSavepoints at hupdate
      split at hupdate
      · cases hupdate
      · split at hupdate
        · exact ⟨_, (Except.error.inj hupdate).symm⟩
        · split at hupdate
          · exact ⟨_, (Except.error.inj hupdate).symm⟩
          · cases hupdate
          · dsimp only at hupdate
            split at hupdate
            · exact ⟨_, (Except.error.inj hupdate).symm⟩
            · cases hupdate
    · cases h

/-- A block that is received reports a fork before anything is written. -/
theorem receiveBlock_eq_recoverable {chain : List BlockData} {dir dir' : IndexDir} {pass : Pass}
    {block : BlockData} {env : ReceiveEnv} {height depth : Nat}
    (h : receiveBlock config settings chain dir pass block env =
      (.error (.recoverable height depth), dir')) :
    detectReorg settings (nodeBlockHash chain env.blockHashFault) pass.index.tables
      block.header.prevBlockhash pass.height = .error (.recoverable height depth) := by
  unfold receiveBlock at h
  split at h
  · rename_i err hdetect
    rw [hdetect, Except.error.inj (congrArg Prod.fst h)]
  · split at h
    · cases congrArg Prod.fst h
    · dsimp only at h
      split at h
      · rename_i hdue
        obtain rfl := Except.error.inj (congrArg Prod.fst h)
        unfold commitDue at hdue
        split at hdue
        · cases hdue
        · split at hdue
          · cases hdue
          · split at hdue
            · cases hdue
            · obtain ⟨fault, -, hfault⟩ := mapError_eq_error.mp hdue
              cases hfault
      · cases congrArg Prod.fst h
      · split at h
        · rename_i hcommit
          obtain rfl := Except.error.inj (congrArg Prod.fst h)
          obtain ⟨fault, hfault⟩ := commitIndex_error (congrArg Prod.fst hcommit)
          cases hfault
        · cases congrArg Prod.fst h

omit [Digests] in
theorem failed_eq_reorged {err : UpdateError} {height depth : Nat}
    (h : (m.failed err).phase = .reorged height depth) : err = .recoverable height depth := by
  cases err with
  | recoverable height' depth' =>
    obtain ⟨rfl, rfl⟩ := Phase.reorged.inj h
    rfl
  | unrecoverable => cases h
  | fault fault => cases h

/-- A pass that does not begin because of a fork has compared the tip. -/
theorem startPass_eq_recoverable {chain : List BlockData} {store : Store} {blockCount : Result Unit}
    {fault : Nat → Option Error} {height depth : Nat}
    (h : startPass settings chain store blockCount fault = .error (.recoverable height depth)) :
    ∃ tip, detectReorg settings (nodeBlockHash chain fault) store.tables tip
      store.tables.headers.length = .error (.recoverable height depth) := by
  unfold startPass at h
  split at h
  · cases h
  · split at h
    · rename_i hcheck
      obtain rfl := Except.error.inj h
      unfold checkTip at hcheck
      dsimp only at hcheck
      split at hcheck
      · split at hcheck
        · cases hcheck
        · cases hcheck
        · split at hcheck
          · cases hcheck
          · exact ⟨_, hcheck⟩
      · cases hcheck
    · cases h

/-- A step that reports a fork has compared headers, which the database has a part of, with the node. -/
theorem take_eq_iff_of_reorged (hinj : Set.InjOn Header.blockHash members) (h : m.Sound members)
    (hbegun : m.Begun) {action : Action} {height depth : Nat}
    (hbefore : m.phase ≠ .reorged height depth)
    (hreorged : (m.step config settings action).phase = .reorged height depth)
    (hdepth : depth ≤ height) : ∃ headers, m.dir.store.tables.headers <+: headers ∧
      ∀ n ≤ headers.length,
        headers.take n = (chainHeaders m.bestChain).take n ↔ n ≤ height - depth + 1 := by
  cases hphase : m.phase with
  | ready =>
    cases action with
    | start blockCount fault =>
      simp only [Machine.step, hphase] at hreorged
      split at hreorged
      · rename_i hstart
        obtain rfl := failed_eq_reorged hreorged
        obtain ⟨tip, hdetect⟩ := startPass_eq_recoverable hstart
        exact ⟨_, List.prefix_refl _, fun n hn =>
          take_eq_iff_of_recoverable hinj h.dir.headers h.bestChain hdetect hdepth hn⟩
      · cases hreorged
    | _ => simp [Machine.step, hphase] at hreorged
  | running pass =>
    have hpass := hbegun pass hphase
    cases action with
    | receive env =>
      simp only [Machine.step, hphase] at hreorged
      split at hreorged
      · rw [hphase] at hreorged
        cases hreorged
      · split at hreorged
        · rename_i hreceive
          obtain rfl := failed_eq_reorged hreorged
          have hdetect := receiveBlock_eq_recoverable hreceive
          dsimp only at hdetect
          rw [hpass.height] at hdetect
          exact ⟨_, hpass.begun, fun n hn => take_eq_iff_of_recoverable hinj
            (h.pass pass hphase).1.headers h.bestChain hdetect hdepth hn⟩
        · cases hreorged
    | finish order savepoint =>
      simp only [Machine.step, hphase] at hreorged
      split at hreorged
      · split at hreorged
        · rename_i hfinish
          obtain rfl := failed_eq_reorged hreorged
          unfold finishPass at hfinish
          split at hfinish
          · split at hfinish
            · rename_i hcommit
              obtain rfl := Except.error.inj (congrArg Prod.fst hfinish)
              obtain ⟨fault, hfault⟩ := commitIndex_error (congrArg Prod.fst hcommit)
              cases hfault
            · cases congrArg Prod.fst hfinish
          · cases congrArg Prod.fst hfinish
        · cases hreorged
      · rw [hphase] at hreorged
        cases hreorged
    | _ => simp [Machine.step, hphase] at hreorged
  | reorged height' depth' =>
    cases action with
    | recover =>
      simp only [Machine.step, hphase] at hreorged
      split at hreorged <;> cases hreorged
    | restart => simp [Machine.step] at hreorged
    | _ =>
      refine absurd ?_ hbefore
      rw [← hreorged]
      simp [Machine.step, hphase]
  | idle | returned result => cases action <;> simp [Machine.step, hphase] at hreorged

/-- The blocks of a savepoint are blocks of the node when it lies at most one above the fork, and then
only.  One above it the savepoint is ahead of the index that the recovery restores. -/
theorem savepoint_common_iff (hinj : Set.InjOn Header.blockHash members) (h : m.Sound members)
    (hbegun : m.Begun) (hkept : SavepointsOnChain m) {action : Action} {height depth : Nat}
    (hbefore : m.phase ≠ .reorged height depth)
    (hreorged : (m.step config settings action).phase = .reorged height depth)
    (hdepth : depth ≤ height) : ∀ entry ∈ m.dir.savepoints.entries,
      entry.2.tables.headers = (chainHeaders m.bestChain).take entry.1 ↔
        entry.1 ≤ height - depth + 1 := by
  intro entry hentry
  obtain ⟨hheight, hsnapshot⟩ := hkept entry hentry
  obtain ⟨headers, ⟨rest, rfl⟩, hcommon⟩ :=
    take_eq_iff_of_reorged hinj h hbegun hbefore hreorged hdepth
  have hle : entry.1 ≤ (m.dir.store.tables.headers ++ rest).length := by
    rw [List.length_append]
    exact hheight.trans (Nat.le_add_right _ _)
  rw [hsnapshot, ← hcommon entry.1 hle, List.take_append_of_le_length hheight]

omit [Digests] in
theorem savepointsOnChain_start (chain : List BlockData) : SavepointsOnChain (.start chain) :=
  fun _ hentry => by cases hentry

/-- Every retained savepoint is a copy of the index in an earlier state of the run, at its height. -/
theorem savepoint_copied (chain : List BlockData) (front : List Action) :
    ∀ entry ∈ (run (Machine.step config settings) (.start chain) front).dir.savepoints.entries,
      ∃ earlier, earlier <+: front ∧
        (run (Machine.step config settings) (.start chain) earlier).dir.store.tables =
          entry.2.tables ∧ entry.2.height = entry.1 := by
  induction front using List.reverseRecOn with
  | nil => exact nofun
  | append_singleton front action ih =>
    have hbegun : (run (Machine.step config settings) (.start chain) front).Begun :=
      always_of_keeps (fun m action _ hbegun => (hbegun.step action).1)
        (Machine.begun_start chain) front (List.prefix_refl _)
    have hearlier : ∀ entry ∈
        (run (Machine.step config settings) (.start chain) front).dir.savepoints.entries,
        ∃ earlier, earlier <+: front ++ [action] ∧
          (run (Machine.step config settings) (.start chain) earlier).dir.store.tables =
            entry.2.tables ∧ entry.2.height = entry.1 := fun entry hentry => by
      obtain ⟨earlier, hprefix, hcopy⟩ := ih entry hentry
      exact ⟨earlier, hprefix.trans (List.prefix_append _ _), hcopy⟩
    obtain ⟨-, hdir⟩ := @Machine.Begun.step _ config settings _ hbegun action
    have hrun := @run_append _ _ (Machine.step config settings) (.start chain) front action
    rw [← hrun] at hdir
    generalize hnext : (run (Machine.step config settings) (.start chain) (front ++ [action])).dir = dir
      at hdir
    cases hdir with
    | same => exact hearlier
    | commit hextends hupdated =>
      intro entry hentry
      rcases hupdated.entries entry hentry with hold | rfl
      · exact hearlier entry hold
      · refine ⟨front ++ [action], List.prefix_refl _, ?_, rfl⟩
        rw [hnext, hupdated.tables]
    | recover hphase hreorg =>
      obtain ⟨_, snapshot, -, -, rfl⟩ := handleReorg_eq_ok hreorg
      exact hearlier

/-- In every state of a run the retained savepoints are copies of the index at their heights; and they
are on the chain of the index in every state exactly when no recovery leaves one above its fork. -/
theorem savepointsOnChain_iff (config : IndexConfig) (settings : UpdaterSettings)
    (chain : List BlockData) (actions : List Action) :
    (∀ front, front <+: actions →
      ∀ entry ∈ (run (Machine.step config settings) (.start chain) front).dir.savepoints.entries,
        ∃ earlier, earlier <+: front ∧
          (run (Machine.step config settings) (.start chain) earlier).dir.store.tables =
            entry.2.tables ∧ entry.2.height = entry.1) ∧
      (Always (Machine.step config settings) SavepointsOnChain (.start chain) actions ↔
        EachStep (Machine.step config settings)
          (fun m action => ¬LeavesAbandoned settings m action) (.start chain) actions) := by
  constructor
  · intro front _
    exact savepoint_copied chain front
  · exact always_iff_of_keeps (fun m action _ hbegun _ _ => (hbegun.step action).1)
      (fun m action _ hbegun hkept => savepointsOnChain_step hbegun hkept action)
      (Machine.begun_start chain) (savepointsOnChain_start chain)

end

/-! ### A savepoint of an abandoned branch -/

instance : DecidablePred SavepointsOnChain := fun m =>
  inferInstanceAs (Decidable (∀ entry ∈ m.dir.savepoints.entries, entry.1 ≤ m.dir.store.height ∧
    entry.2.tables.headers = m.dir.store.tables.headers.take entry.1))

section

attribute [local instance] Format.sha256Digests

def frequentSettings : UpdaterSettings := ⟨2, 3, 5000, none, 0, true, false⟩

/-- Three blocks on top of the genesis block, and then a branch in the place of two of them. -/
def branchRun : List Action :=
  exampleUpdate 4 3 ++ [.bestChain (exampleChain [1, 4, 5, 6]), .update, .start (.ok ()) fun _ => none,
    .fetch false, .receive (receiveEnv 4), .recover, .start (.ok ()) fun _ => none] ++
    (List.replicate 4 [Action.fetch false, .receive (receiveEnv 4)]).flatten ++
    [.fetch false, finishAction 4]

/-- After the update the index is on the branch, and savepoint 3 still holds the block that the branch
replaced; savepoint 1 was pruned for savepoint 4. -/
theorem not_savepointsOnChain_branch :
    ¬Always (Machine.step exampleConfig frequentSettings) SavepointsOnChain
      (.start (exampleChain [1, 2, 3])) branchRun := by
  intro h
  have hlast := h branchRun (List.prefix_refl _)
  exact absurd hlast (by decide +kernel)

end

end Lord.Index
