import Lord.Index.Savepoints
import Lord.Index.SavepointSchedule

/-! The depth up to which a reorganisation is reported as recoverable, beside the savepoints that are
there to recover from it. -/

namespace Lord.Index

open Bitcoin Ots Runs

section

variable [Digests] {config : IndexConfig} {settings : UpdaterSettings} {tables : Tables}
  {branch : List BlockData} {fork : Nat}

/-- The node went to a branch that is as high as the index, and the fork is the highest block that
both have. -/
structure Reorged (headers : List Header) (branch : List BlockData) (fork : Nat) : Prop where
  high : headers.length ≤ branch.length
  below : fork + 1 < headers.length
  agrees : ∃ header block, headers[fork]? = some header ∧ branch[fork]? = some block ∧
    header.blockHash = block.header.blockHash
  differs : ∀ height header block, fork < height → headers[height]? = some header →
    branch[height]? = some block → header.blockHash ≠ block.header.blockHash

/-- The detection at the first block of the branch that the index does not have, or at its tip. -/
def detectBranch (settings : UpdaterSettings) (tables : Tables) (branch : List BlockData) :
    Except UpdateError Unit :=
  match branch[tables.headers.length - 1]? with
  | none => .ok ()
  | some last => detectReorg settings (nodeBlockHash branch fun _ => none) tables last.header.blockHash
    tables.headers.length

/-- What is reported as recoverable finds a savepoint, and what is not has none at or before the fork. -/
structure RecoversAsReported (savepoints : List Nat) (fork : Nat) (report : Except UpdateError Unit) :
    Prop where
  recoverable : ∀ height depth, report = .error (.recoverable height depth) →
    ∃ savepoint, savepointHeightForReorg savepoints height depth = .ok savepoint
  unrecoverable : report = .error .unrecoverable → ¬∃ savepoint ∈ savepoints, savepoint ≤ fork

/-- The depths below this one are reported as recoverable. -/
def recoverableDepth (settings : UpdaterSettings) (height : Nat) : Nat :=
  (settings.maxSavepoints - 1) * settings.savepointInterval + height % settings.savepointInterval

/-- The settings and the depths that are searched fit the `u32` of the check. -/
structure SearchFits (settings : UpdaterSettings) (height : Nat) : Prop where
  interval : settings.savepointInterval < 2 ^ 32
  max : settings.maxSavepoints < 2 ^ 32
  depth : recoverableDepth settings height < 2 ^ 32

omit [Digests] in
theorem maxRecoverableReorgDepth_eq (hinterval : 0 < settings.savepointInterval)
    (hmax : 0 < settings.maxSavepoints) {height : Nat} (hfits : SearchFits settings height) :
    maxRecoverableReorgDepth settings height = .ok (recoverableDepth settings height) := by
  have hdepth := hfits.depth
  rw [recoverableDepth] at hdepth
  rw [maxRecoverableReorgDepth,
    if_neg (not_or.mpr ⟨Nat.not_le.mpr hfits.interval, Nat.not_le.mpr hfits.max⟩)]
  refine bind_eq_ok.mpr ⟨_, Checked.sub_of_le hmax, ?_⟩
  refine bind_eq_ok.mpr ⟨_, Checked.mul_of_lt (by omega), ?_⟩
  exact bind_eq_ok.mpr ⟨_, Checked.rem_of_pos hinterval, Checked.add_of_lt hdepth⟩

omit [Digests] in
/-- What does not fit panics. -/
theorem searchFits_of_eq_ok {height depth : Nat}
    (h : maxRecoverableReorgDepth settings height = .ok depth) : SearchFits settings height := by
  rw [maxRecoverableReorgDepth] at h
  split at h
  · cases h
  · rename_i hsettings
    obtain ⟨others, hothers, h⟩ := bind_eq_ok.mp h
    obtain ⟨intervals, hintervals, h⟩ := bind_eq_ok.mp h
    obtain ⟨position, hposition, h⟩ := bind_eq_ok.mp h
    obtain ⟨-, rfl⟩ := Checked.sub_eq_ok.mp hothers
    obtain ⟨-, rfl⟩ := Checked.mul_eq_ok.mp hintervals
    have hrem : height % settings.savepointInterval = position := by
      unfold Checked.rem at hposition
      split at hposition
      · cases hposition
      · exact Except.ok.inj hposition
    rw [not_or, Nat.not_le, Nat.not_le] at hsettings
    refine ⟨hsettings.1, hsettings.2, ?_⟩
    rw [recoverableDepth, hrem]
    exact (Checked.add_eq_ok.mp h).1

theorem nodeBlockHash_eq {height : Nat} {block : BlockData} (h : branch[height]? = some block) :
    nodeBlockHash branch (fun _ => none) height = .ok (some block.header.blockHash) := by
  rw [nodeBlockHash, h]
  rfl

/-- The search ends at the fork, or below the depth that it goes to. -/
theorem searchFork_eq (h : Reorged tables.headers branch fork) {start count : Nat} (hstart : 0 < start)
    (hle : start ≤ tables.headers.length - fork) :
    searchFork tables (nodeBlockHash branch fun _ => none) tables.headers.length
        (List.range' start count) =
      if tables.headers.length - fork < start + count then
        .recoverable tables.headers.length (tables.headers.length - fork)
      else .unrecoverable := by
  have hbelow := h.below
  have hhigh := h.high
  induction count generalizing start with
  | zero =>
    rw [if_neg (by omega)]
    rfl
  | succ count ih =>
    obtain ⟨header, hheader⟩ : ∃ header,
        tables.headers[tables.headers.length - start]? = some header :=
      ⟨_, List.getElem?_eq_getElem (by omega)⟩
    obtain ⟨block, hblock⟩ : ∃ block, branch[tables.headers.length - start]? = some block :=
      ⟨_, List.getElem?_eq_getElem (by omega)⟩
    have hindexed : blockHashInTxn tables (checkedSub tables.headers.length start) =
        some header.blockHash := by
      rw [checkedSub, if_pos (by omega), blockHashInTxn, hheader]
      rfl
    rw [List.range'_succ, searchFork, nodeBlockHash_eq hblock]
    dsimp only
    rw [hindexed]
    rcases Nat.eq_or_lt_of_le hle with heq | hlt
    · have hfork : tables.headers.length - start = fork := by omega
      obtain ⟨header', block', hheader', hblock', hhash⟩ := h.agrees
      rw [hfork, hheader'] at hheader
      rw [hfork, hblock'] at hblock
      cases hheader
      cases hblock
      rw [if_pos (congrArg some hhash), if_pos (by omega), heq]
    · have hdiffers := h.differs (tables.headers.length - start) header block (by omega) hheader hblock
      rw [if_neg fun heq => hdiffers (Option.some.inj heq), ih (by omega) (by omega),
        show start + 1 + count = start + (count + 1) by omega]

/-- What the detection reports of a reorganisation. -/
theorem detectBranch_eq (h : Reorged tables.headers branch fork) :
    detectBranch settings tables branch =
      match maxRecoverableReorgDepth settings tables.headers.length with
      | .error fault => .error (.fault fault)
      | .ok maxDepth => .error (if tables.headers.length - fork < maxDepth then
          .recoverable tables.headers.length (tables.headers.length - fork) else .unrecoverable) := by
  have hbelow := h.below
  have hhigh := h.high
  obtain ⟨header, hheader⟩ : ∃ header, tables.headers[tables.headers.length - 1]? = some header :=
    ⟨_, List.getElem?_eq_getElem (by omega)⟩
  obtain ⟨block, hblock⟩ : ∃ block, branch[tables.headers.length - 1]? = some block :=
    ⟨_, List.getElem?_eq_getElem (by omega)⟩
  have hdiffers := h.differs (tables.headers.length - 1) header block (by omega) hheader hblock
  rw [detectBranch, hblock]
  dsimp only
  rw [detectReorg, checkedSub, if_pos (by omega), blockHashInTxn, hheader]
  dsimp only [Option.map_some]
  rw [if_neg hdiffers]
  cases maxRecoverableReorgDepth settings tables.headers.length with
  | error fault => rfl
  | ok maxDepth =>
    dsimp only
    rw [searchFork_eq h Nat.zero_lt_one (by omega)]
    congr 2
    exact propext ⟨fun hlt => by omega, fun hlt => by omega⟩

/-- The reports are right when the fork has a savepoint at or before it exactly at the depths that the
search goes to. -/
theorem recoversAsReported_iff (hinterval : 0 < settings.savepointInterval)
    (hmax : 0 < settings.maxSavepoints) (h : Reorged tables.headers branch fork)
    (savepoints : List Nat) :
    RecoversAsReported savepoints fork (detectBranch settings tables branch) ↔
      (SearchFits settings tables.headers.length →
        ((∃ savepoint ∈ savepoints, savepoint ≤ fork) ↔
          tables.headers.length - fork < recoverableDepth settings tables.headers.length)) := by
  have hbelow := h.below
  by_cases hfits : SearchFits settings tables.headers.length
  · rw [detectBranch_eq h, maxRecoverableReorgDepth_eq hinterval hmax hfits, imp_iff_right hfits]
    have htarget : tables.headers.length - (tables.headers.length - fork) = fork := by omega
    by_cases hdepth : tables.headers.length - fork < recoverableDepth settings tables.headers.length
    · simp only [hdepth, if_true, iff_true]
      constructor
      · intro hreport
        rw [← htarget]
        exact savepointHeightForReorg_isOk.mp (hreport.recoverable _ _ rfl)
      · intro hexists
        refine ⟨fun height depth heq => ?_, nofun⟩
        cases heq
        exact savepointHeightForReorg_isOk.mpr (by rwa [htarget])
    · simp only [hdepth, if_false, iff_false]
      exact ⟨fun hreport => hreport.unrecoverable rfl, fun hnone => ⟨nofun, fun _ => hnone⟩⟩
  · -- the check panics
    refine iff_of_true ?_ fun hfits' => absurd hfits' hfits
    rw [detectBranch_eq h]
    cases hdepth : maxRecoverableReorgDepth settings tables.headers.length with
    | error fault => exact ⟨nofun, nofun⟩
    | ok depth => exact absurd (searchFits_of_eq_ok hdepth) hfits

/-- The tables of the database, or those of a running pass. -/
def Machine.HasTables (m : Machine) (tables : Tables) : Prop :=
  tables = m.dir.store.tables ∨ ∃ pass, m.phase = .running pass ∧ tables = pass.index.tables

omit [Digests] in
/-- The savepoints of a database on the schedule, beside a fork. -/
theorem Machine.Scheduled.savepoint_le_iff {m : Machine} (hsettings : KeepsSavepoints settings)
    (h : m.Scheduled settings) (hbegun : m.Begun) (htables : m.HasTables tables)
    (hfork : fork ≤ tables.headers.length) :
    (∃ savepoint ∈ m.dir.listSavepoints, savepoint ≤ fork) ↔
      0 < fork ∧ scheduleLength settings.savepointInterval tables.headers.length -
        scheduleLength settings.savepointInterval fork < settings.maxSavepoints := by
  have hon : OnSchedule settings m.dir tables.headers.length := by
    rcases htables with rfl | ⟨pass, hphase, rfl⟩
    · exact h.dir
    · have hpass := hbegun pass hphase
      have hcounted := hpass.counted
      rw [← hpass.height]
      exact h.dir.of_none (by omega) (h.pass pass hphase)
  rw [hon.savepoints]
  exact retained_le_iff hsettings.interval.1 hfork

/-- In every state of a run the reports are right for a fork exactly when a retained savepoint lies at or
before it just at the depths that the search goes to; and when the run followed the tip from the first
block on, this is an equation between the two schedules. -/
theorem reorgRecovery_iff (config : IndexConfig) (hinterval : 0 < settings.savepointInterval)
    (hmax : 0 < settings.maxSavepoints) (chain : List BlockData) (actions : List Action)
    (htables : (run (Machine.step config settings) (.start chain) actions).HasTables tables)
    (h : Reorged tables.headers branch fork) :
    (RecoversAsReported
        (run (Machine.step config settings) (.start chain) actions).dir.listSavepoints fork
        (detectBranch settings tables branch) ↔
      (SearchFits settings tables.headers.length →
        ((∃ savepoint ∈
            (run (Machine.step config settings) (.start chain) actions).dir.listSavepoints,
            savepoint ≤ fork) ↔
          tables.headers.length - fork < recoverableDepth settings tables.headers.length))) ∧
    (KeepsSavepoints settings →
      EachStep (Machine.step config settings) (FollowsTip settings) (.start chain) actions →
      (RecoversAsReported
          (run (Machine.step config settings) (.start chain) actions).dir.listSavepoints fork
          (detectBranch settings tables branch) ↔
        (SearchFits settings tables.headers.length →
          (0 < fork ∧ scheduleLength settings.savepointInterval tables.headers.length -
              scheduleLength settings.savepointInterval fork < settings.maxSavepoints ↔
            tables.headers.length - fork < recoverableDepth settings tables.headers.length)))) := by
  refine ⟨recoversAsReported_iff hinterval hmax h _, fun hsettings hfollows => ?_⟩
  obtain ⟨hbegun, hscheduled⟩ := Machine.scheduled_run config hsettings chain hfollows
  have hbelow := h.below
  rw [recoversAsReported_iff hinterval hmax h,
    hscheduled.savepoint_le_iff hsettings hbegun htables (by omega)]

end

/-! ### A recoverable reorganisation without a savepoint -/

section

attribute [local instance] Format.sha256Digests

theorem reorged_example :
    Reorged (chainHeaders (exampleChain [1, 2])) (exampleChain [1, 4]) 1 where
  high := by decide
  below := by decide
  agrees := ⟨_, _, rfl, rfl, rfl⟩
  differs := by
    intro height header block hlt hheader hblock
    obtain ⟨hheight, -⟩ := List.getElem?_eq_some_iff.mp hheader
    obtain rfl : height = 2 := by
      simp only [chainHeaders, exampleChain, exampleBranch, List.map_cons, List.map_nil,
        List.length_cons, List.length_nil] at hheight
      omega
    cases hheader
    cases hblock
    decide +kernel

/-- The genesis block and two blocks on top of it. -/
def threeBlocks (settings : UpdaterSettings) : Machine :=
  run (Machine.step exampleConfig settings) (.start (exampleChain [1, 2])) (exampleUpdate 3 2)

theorem reorgRecovery_frequent : RecoversAsReported (threeBlocks frequentSettings).dir.listSavepoints 1
    (detectBranch frequentSettings (threeBlocks frequentSettings).dir.store.tables
      (exampleChain [1, 4])) := by
  have hindexed : (threeBlocks frequentSettings).dir.listSavepoints = [1, 3] ∧
      (threeBlocks frequentSettings).dir.store.tables.headers = chainHeaders (exampleChain [1, 2]) := by
    decide +kernel
  have hreorged : Reorged (threeBlocks frequentSettings).dir.store.tables.headers
      (exampleChain [1, 4]) 1 := by
    rw [hindexed.2]
    exact reorged_example
  have htables : (threeBlocks frequentSettings).HasTables
      (threeBlocks frequentSettings).dir.store.tables := .inl rfl
  refine (@reorgRecovery_iff _ frequentSettings _ _ _ exampleConfig (by decide) (by decide)
    (exampleChain [1, 2]) (exampleUpdate 3 2) htables hreorged).1.mpr fun _ => ?_
  show (∃ savepoint ∈ (threeBlocks frequentSettings).dir.listSavepoints, savepoint ≤ 1) ↔
    (threeBlocks frequentSettings).dir.store.tables.headers.length - 1 <
      recoverableDepth frequentSettings (threeBlocks frequentSettings).dir.store.tables.headers.length
  rw [hindexed.1, hindexed.2]
  decide

/-- One savepoint, and a dense phase of three blocks. -/
def denseSettings : UpdaterSettings := ⟨4, 1, 5000, none, 0, true, false⟩

/-- A reorganisation of depth 2 is reported as recoverable, and the one savepoint is above its fork. -/
theorem not_reorgRecovery_dense : ∃ tables, (threeBlocks denseSettings).HasTables tables ∧
    Reorged tables.headers (exampleChain [1, 4]) 1 ∧
    ¬RecoversAsReported (threeBlocks denseSettings).dir.listSavepoints 1
      (detectBranch denseSettings tables (exampleChain [1, 4])) := by
  have hindexed : (threeBlocks denseSettings).dir.listSavepoints = [3] ∧
      (threeBlocks denseSettings).dir.store.tables.headers = chainHeaders (exampleChain [1, 2]) := by
    decide +kernel
  have hreorged : Reorged (threeBlocks denseSettings).dir.store.tables.headers
      (exampleChain [1, 4]) 1 := by
    rw [hindexed.2]
    exact reorged_example
  refine ⟨_, .inl rfl, hreorged, fun hreport => ?_⟩
  have hdepth := (recoversAsReported_iff (by decide) (by decide) hreorged _).mp hreport
    ⟨by decide, by decide, by rw [hindexed.2]; decide⟩
  rw [hindexed.1, hindexed.2] at hdepth
  exact absurd hdepth (by decide)

end

end Lord.Index
