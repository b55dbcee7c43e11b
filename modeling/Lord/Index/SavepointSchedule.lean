import Lord.Index.HeaderChain

/-! The heights of the savepoints that an update keeps while it follows the tip of the node. -/

namespace Lord.Index

open Bitcoin Ots Runs

/-! ### The schedule -/

/-- Every height below the interval has a savepoint, and from there on the last one of each interval. -/
def scheduled (interval height : Nat) : Bool :=
  height < interval || height % interval = interval - 1

/-- The scheduled heights up to one. -/
def schedule (interval height : Nat) : List Nat :=
  (List.range' 1 height).filter (scheduled interval)

/-- The number of scheduled heights up to one. -/
def scheduleLength (interval height : Nat) : Nat :=
  if height < interval then height else interval + (height + 1) / interval - 2

theorem schedule_succ (interval height : Nat) :
    schedule interval (height + 1) =
      schedule interval height ++ if scheduled interval (height + 1) then [height + 1] else [] := by
  rw [schedule, List.range'_concat, List.filter_append, schedule, Nat.one_mul, Nat.add_comm 1 height]
  congr 1
  cases h : scheduled interval (height + 1) <;> simp [h]

theorem scheduled_iff_dvd {interval height : Nat} (hinterval : 0 < interval) :
    height % interval = interval - 1 ↔ interval ∣ height + 1 := by
  have hlt := Nat.mod_lt height hinterval
  rw [Nat.dvd_iff_mod_eq_zero, Nat.add_mod]
  constructor
  · intro h
    rcases Nat.lt_or_ge 1 interval with hone | hone
    · rw [h, Nat.mod_eq_of_lt hone, Nat.sub_add_cancel hinterval, Nat.mod_self]
    · obtain rfl : interval = 1 := by omega
      exact Nat.mod_one _
  · intro h
    by_contra hne
    have hone : 1 < interval := by omega
    rw [Nat.mod_eq_of_lt hone, Nat.mod_eq_of_lt (by omega)] at h
    omega

theorem length_schedule {interval : Nat} (hinterval : 0 < interval) (height : Nat) :
    (schedule interval height).length = scheduleLength interval height := by
  induction height with
  | zero =>
    rw [scheduleLength, if_pos hinterval]
    rfl
  | succ height ih =>
    rw [schedule_succ, List.length_append, ih]
    rcases Nat.lt_or_ge (height + 1) interval with hbelow | hbelow
    · rw [scheduleLength, if_pos (by omega), scheduleLength, if_pos hbelow, scheduled,
        decide_eq_true hbelow]
      rfl
    · have hdiv := @Nat.succ_div (height + 1) interval
      have hheight : scheduled interval (height + 1) = decide (interval ∣ height + 1 + 1) := by
        rw [scheduled, decide_eq_false (by omega), Bool.false_or]
        exact decide_eq_decide.mpr (scheduled_iff_dvd hinterval)
      have hpos : 0 < (height + 1) / interval := Nat.div_pos hbelow hinterval
      have hbefore : scheduleLength interval height = interval + (height + 1) / interval - 2 := by
        rw [scheduleLength]
        split
        · rw [show height + 1 = interval by omega, Nat.div_self hinterval]
          omega
        · rfl
      have hafter : scheduleLength interval (height + 1) =
          interval + (height + 1 + 1) / interval - 2 := by
        rw [scheduleLength, if_neg (by omega)]
      rw [hbefore, hafter, hdiv, hheight]
      by_cases hdvd : interval ∣ height + 1 + 1
      · rw [if_pos hdvd, decide_eq_true hdvd]
        simp only [if_true, List.length_singleton]
        omega
      · rw [if_neg hdvd, decide_eq_false hdvd]
        rfl

/-- The last scheduled heights up to one. -/
def retained (settings : UpdaterSettings) (height : Nat) : List Nat :=
  (schedule settings.savepointInterval height).drop
    ((schedule settings.savepointInterval height).length - settings.maxSavepoints)

theorem mem_schedule {interval height savepoint : Nat} :
    savepoint ∈ schedule interval height ↔
      1 ≤ savepoint ∧ savepoint ≤ height ∧ scheduled interval savepoint = true := by
  rw [schedule, List.mem_filter, List.mem_range'_1, and_assoc, Nat.add_comm 1, Nat.lt_succ_iff]

theorem le_of_mem_retained {settings : UpdaterSettings} {height savepoint : Nat}
    (h : savepoint ∈ retained settings height) : savepoint ≤ height :=
  (mem_schedule.mp (List.mem_of_mem_drop h)).2.1

/-- One of the last heights lies at or before a fork when there are fewer scheduled heights above it. -/
theorem retained_le_iff {settings : UpdaterSettings} (hinterval : 0 < settings.savepointInterval)
    {height fork : Nat} (hfork : fork ≤ height) :
    (∃ savepoint ∈ retained settings height, savepoint ≤ fork) ↔
      0 < fork ∧ scheduleLength settings.savepointInterval height -
        scheduleLength settings.savepointInterval fork < settings.maxSavepoints := by
  obtain ⟨above, habove⟩ : ∃ above, schedule settings.savepointInterval height =
      schedule settings.savepointInterval fork ++ above ∧ ∀ savepoint ∈ above, fork < savepoint := by
    refine ⟨(List.range' (fork + 1) (height - fork)).filter (scheduled settings.savepointInterval), ?_,
      fun savepoint hmem => ?_⟩
    · rw [schedule, schedule, ← List.filter_append, Nat.add_comm fork 1, List.range'_append_1]
      congr 2
      omega
    · have := (List.mem_range'_1.mp (List.mem_filter.mp hmem).1).1
      omega
  have hlength := congrArg List.length habove.1
  rw [List.length_append] at hlength
  rw [← length_schedule hinterval, ← length_schedule hinterval, hlength, Nat.add_sub_cancel_left,
    retained, habove.1, List.length_append]
  have hnonempty : 0 < fork ↔ 0 < (schedule settings.savepointInterval fork).length := by
    rw [List.length_pos_iff_exists_mem]
    constructor
    · intro hpos
      refine ⟨1, mem_schedule.mpr ⟨le_refl _, hpos, ?_⟩⟩
      rcases Nat.lt_or_ge 1 settings.savepointInterval with hone | hone
      · rw [scheduled, decide_eq_true hone]
        rfl
      · rw [show settings.savepointInterval = 1 by omega]
        rfl
    · rintro ⟨savepoint, hmem⟩
      obtain ⟨hle, hlt, -⟩ := mem_schedule.mp hmem
      omega
  rw [hnonempty]
  rw [List.drop_append]
  constructor
  · rintro ⟨savepoint, hmem, hle⟩
    -- such a height is not above the fork, so not all those below are dropped
    rcases List.mem_append.mp hmem with hmem | hmem
    · have hpos := List.length_pos_of_mem hmem
      rw [List.length_drop] at hpos
      omega
    · exact absurd (habove.2 savepoint (List.mem_of_mem_drop hmem)) (by omega)
  · rintro ⟨hpos, hlt⟩
    have hleft : 0 < ((schedule settings.savepointInterval fork).drop
        ((schedule settings.savepointInterval fork).length + above.length -
          settings.maxSavepoints)).length := by
      rw [List.length_drop]
      omega
    obtain ⟨savepoint, hmem⟩ := List.exists_mem_of_length_pos hleft
    exact ⟨savepoint, List.mem_append_left _ hmem, (mem_schedule.mp (List.mem_of_mem_drop hmem)).2.1⟩

/-- The last scheduled height up to one. -/
def lastScheduled (interval height : Nat) : Nat := ((schedule interval height).getLast?).getD 0

theorem lastScheduled_succ (interval height : Nat) :
    lastScheduled interval (height + 1) =
      if scheduled interval (height + 1) then height + 1 else lastScheduled interval height := by
  rw [lastScheduled, schedule_succ]
  split
  · rw [List.getLast?_concat]
    rfl
  · rw [List.append_nil]
    rfl

theorem lastScheduled_below {interval height : Nat} (h : height < interval) :
    lastScheduled interval height = height := by
  cases height with
  | zero => rfl
  | succ height =>
    rw [lastScheduled_succ, scheduled, decide_eq_true h]
    rfl

/-- From the end of the first interval on, the last scheduled height ends the last whole interval. -/
theorem lastScheduled_above {interval height : Nat} (hinterval : 0 < interval)
    (h : interval ≤ height + 1) :
    lastScheduled interval height + 1 = (height + 1) / interval * interval := by
  induction height with
  | zero =>
    obtain rfl : interval = 1 := by omega
    rfl
  | succ height ih =>
    rcases Nat.lt_or_ge (height + 1) interval with hbelow | hbelow
    · rw [lastScheduled_below hbelow, show height + 1 + 1 = interval by omega,
        Nat.div_self hinterval, Nat.one_mul]
    · have hdiv := @Nat.succ_div (height + 1) interval
      have hheight : scheduled interval (height + 1) = decide (interval ∣ height + 1 + 1) := by
        rw [scheduled, decide_eq_false (by omega), Bool.false_or]
        exact decide_eq_decide.mpr (scheduled_iff_dvd hinterval)
      rw [lastScheduled_succ, hheight]
      by_cases hdvd : interval ∣ height + 1 + 1
      · rw [decide_eq_true hdvd, if_pos rfl, Nat.div_mul_cancel hdvd]
      · rw [decide_eq_false hdvd, if_neg Bool.false_ne_true, hdiv, if_neg hdvd, Nat.add_zero]
        exact ih hbelow

theorem schedule_eq_of_none {interval below height : Nat} (hle : below ≤ height)
    (hnone : ∀ h, below < h → h ≤ height → scheduled interval h = false) :
    schedule interval height = schedule interval below := by
  induction height, hle using Nat.le_induction with
  | base => rfl
  | succ height hle ih =>
    rw [schedule_succ, hnone (height + 1) (by omega) (le_refl _), ih fun h hlt hh =>
      hnone h hlt (by omega)]
    exact List.append_nil _

/-- The height that an update asks for after the last savepoint is the next one of the schedule. -/
theorem scheduled_iff_due {interval height : Nat} (hinterval : 0 < interval) :
    (height + 1 < interval ∨ interval ≤ height + 1 - lastScheduled interval height) ↔
      scheduled interval (height + 1) = true := by
  rw [scheduled, Bool.or_eq_true, decide_eq_true_eq, decide_eq_true_eq]
  refine or_congr_right' fun hbelow => ?_
  have hlast := lastScheduled_above hinterval (show interval ≤ height + 1 by omega)
  have hdiv := Nat.div_add_mod' (height + 1) interval
  have hlt := Nat.mod_lt (height + 1) hinterval
  omega

/-! ### Savepoints on the schedule -/

/-- Savepoints are enabled, and the settings fit the `u32` of the reorg check. -/
structure KeepsSavepoints (settings : UpdaterSettings) : Prop where
  enabled : settings.savepointsEnabled = true
  interval : 0 < settings.savepointInterval ∧ settings.savepointInterval < 2 ^ 32
  max : 0 < settings.maxSavepoints ∧ settings.maxSavepoints < 2 ^ 32
  blocks : settings.integrationTest = false

/-- The node reports so few more headers that the heights from here on have savepoints. -/
def NearTip (settings : UpdaterSettings) (headers : Result Nat) (height : Nat) : Prop :=
  ∃ count, headers = .ok count ∧
    count - height ≤ settings.savepointInterval * settings.maxSavepoints + 1

variable {settings : UpdaterSettings} {dir : IndexDir}

theorem listSavepoints_erase_oldest {oldest : Nat} {rest : List Nat}
    (h : dir.listSavepoints = oldest :: rest) :
    ({ dir with savepoints := dir.savepoints.erase oldest } : IndexDir).listSavepoints = rest := by
  obtain ⟨store, ⟨entries, sorted⟩⟩ := dir
  cases entries with
  | nil => cases h
  | cons entry entries =>
    obtain ⟨rfl, rfl⟩ := List.cons.inj h
    have hlater : ∀ other ∈ entries, other.1 ≠ entry.1 := fun other hother =>
      ((List.pairwise_cons.mp sorted).1 other hother).ne'
    simp only [IndexDir.listSavepoints, SortedMap.erase, ne_eq, List.filter_cons, not_true_eq_false,
      decide_false, Bool.false_eq_true, if_false]
    rw [List.filter_eq_self.mpr fun other hother => decide_eq_true (hlater other hother)]

theorem listSavepoints_insert_latest {height : Nat} {store snapshot : Store}
    (h : ∀ savepoint ∈ dir.listSavepoints, savepoint < height) :
    (IndexDir.mk store (dir.savepoints.insert height snapshot)).listSavepoints =
      dir.listSavepoints ++ [height] := by
  have hentry : ∀ entry ∈ dir.savepoints.entries, entry.1 < height := fun entry hmem =>
    h entry.1 (List.mem_map.mpr ⟨entry, hmem, rfl⟩)
  show (dir.savepoints.entries.filter (·.1 < height) ++
    (height, snapshot) :: dir.savepoints.entries.filter (height < ·.1)).map Prod.fst = _
  rw [List.filter_eq_self.mpr fun entry hmem => decide_eq_true (hentry entry hmem),
    List.filter_eq_nil_iff.mpr fun entry hmem => by simpa using (hentry entry hmem).le]
  exact List.map_append

theorem listSavepoints_prune (settings : UpdaterSettings) (dir : IndexDir) :
    (pruneSavepoints settings dir).listSavepoints =
      if settings.maxSavepoints ≤ dir.listSavepoints.length then dir.listSavepoints.tail
      else dir.listSavepoints := by
  unfold pruneSavepoints
  cases hlist : dir.listSavepoints with
  | nil =>
    dsimp only [List.head?_nil]
    rw [hlist]
    exact (ite_self _).symm
  | cons oldest rest =>
    dsimp only [List.head?_cons]
    split
    · exact listSavepoints_erase_oldest hlist
    · exact hlist

theorem isSavepointRequired_eq (hsettings : KeepsSavepoints settings) {headers height : Nat}
    (hnear : headers - (height + 1) ≤ settings.savepointInterval * settings.maxSavepoints + 1) :
    isSavepointRequired settings headers (lastScheduled settings.savepointInterval height)
      (height + 1) = .ok (scheduled settings.savepointInterval (height + 1)) := by
  have hfits : settings.savepointInterval * settings.maxSavepoints + 1 < 2 ^ 64 := by
    have := Nat.mul_le_mul (Nat.le_sub_one_of_lt hsettings.interval.2)
      (Nat.le_sub_one_of_lt hsettings.max.2)
    omega
  rw [isSavepointRequired, hsettings.enabled, Bool.true_and]
  simp only [Bool.or_eq_true, decide_eq_true_eq]
  cases hscheduled : scheduled settings.savepointInterval (height + 1) with
  | false =>
    refine if_neg fun hdue => ?_
    rw [(scheduled_iff_due hsettings.interval.1).mp hdue] at hscheduled
    cases hscheduled
  | true =>
    rw [if_pos ((scheduled_iff_due hsettings.interval.1).mpr hscheduled),
      Checked.mul_of_lt (by omega), ok_bind, Checked.add_of_lt hfits, ok_bind, decide_eq_true hnear]

/-- The savepoints of a database on the schedule. -/
structure OnSchedule (settings : UpdaterSettings) (dir : IndexDir) (height : Nat) : Prop where
  savepoints : dir.listSavepoints = retained settings height
  last : dir.store.lastSavepointHeight = lastScheduled settings.savepointInterval height

theorem retained_succ (settings : UpdaterSettings) (hmax : 0 < settings.maxSavepoints) {height : Nat}
    (h : scheduled settings.savepointInterval (height + 1) = true) :
    retained settings (height + 1) =
      (if settings.maxSavepoints ≤ (retained settings height).length
        then (retained settings height).tail else retained settings height) ++ [height + 1] := by
  simp only [retained, schedule_succ, h, if_true, List.length_append, List.length_singleton,
    List.length_drop]
  split
  · rw [List.tail_drop, List.drop_append_of_le_length (by omega)]
    congr 2
    omega
  · rw [show (schedule settings.savepointInterval height).length + 1 - settings.maxSavepoints = 0 by
        omega, show (schedule settings.savepointInterval height).length - settings.maxSavepoints = 0 by
        omega]
    rfl

/-- An update of the savepoints at the next height keeps them on the schedule. -/
theorem OnSchedule.update (hsettings : KeepsSavepoints settings) {height : Nat}
    (h : OnSchedule settings dir height) {env : SavepointEnv}
    (hnear : NearTip settings env.headers (height + 1)) :
    OnSchedule settings (updateSavepoints settings dir (height + 1) env).2 (height + 1) := by
  obtain ⟨count, hcount, hle⟩ := hnear
  have hrequired := isSavepointRequired_eq hsettings hle
  rw [← h.last] at hrequired
  simp only [updateSavepoints, hsettings.enabled, hcount, hrequired, Bool.not_true,
    Bool.false_eq_true, if_false]
  cases hscheduled : scheduled settings.savepointInterval (height + 1) with
  | false =>
    have hsame := schedule_eq_of_none (Nat.le_succ height) fun other hlt hle => by
      rw [show other = height + 1 by omega, hscheduled]
    constructor
    · rw [h.savepoints, retained, retained, hsame]
    · rw [h.last, lastScheduled, lastScheduled, hsame]
  | true =>
    have hprune := listSavepoints_prune settings dir
    rw [h.savepoints] at hprune
    have hbelow : ∀ savepoint ∈ (pruneSavepoints settings dir).listSavepoints,
        savepoint < height + 1 := by
      intro savepoint hmem
      rw [hprune] at hmem
      split at hmem
      · exact Nat.lt_succ_of_le (le_of_mem_retained (List.mem_of_mem_tail hmem))
      · exact Nat.lt_succ_of_le (le_of_mem_retained hmem)
    have hnew : ¬((pruneSavepoints settings dir).savepoints.get (height + 1)).isSome = true := by
      intro hsome
      obtain ⟨snapshot, hmem⟩ := (SortedMap.get_isSome _).mp hsome
      exact lt_irrefl _ (hbelow (height + 1) (List.mem_map.mpr ⟨_, hmem, rfl⟩))
    have hcopy : copyToSavepoint (pruneSavepoints settings dir) (height + 1) env.overwrite =
        .ok ⟨(pruneSavepoints settings dir).store, (pruneSavepoints settings dir).savepoints.insert
          (height + 1) (pruneSavepoints settings dir).store⟩ := by
      unfold copyToSavepoint
      rw [if_neg hnew]
    simp only [hcopy]
    constructor
    · rw [retained_succ settings hsettings.max.1 hscheduled, ← hprune]
      exact listSavepoints_insert_latest hbelow
    · rw [lastScheduled_succ, hscheduled, if_pos rfl]

theorem OnSchedule.of_none {below height : Nat} (h : OnSchedule settings dir below)
    (hle : below ≤ height)
    (hnone : ∀ h, below < h → h ≤ height → scheduled settings.savepointInterval h = false) :
    OnSchedule settings dir height := by
  have hsame := schedule_eq_of_none hle hnone
  refine ⟨?_, ?_⟩
  · rw [retained, hsame]
    exact h.savepoints
  · rw [lastScheduled, hsame]
    exact h.last

/-- A commit at the next height, with the update of the savepoints behind it. -/
theorem OnSchedule.commit (hsettings : KeepsSavepoints settings) {below : Nat} {tables : Tables}
    (h : OnSchedule settings dir below) (hheight : tables.headers.length = below + 1)
    {env : SavepointEnv} (hnear : NearTip settings env.headers (below + 1)) {dir' : IndexDir}
    (hdir : dir' = (updateSavepoints settings { dir with store := { dir.store with tables } }
      (below + 1) env).2) :
    OnSchedule settings dir' dir'.store.height ∧ dir'.store.height = below + 1 := by
  have hbefore : OnSchedule settings { dir with store := { dir.store with tables } } below :=
    ⟨h.savepoints, h.last⟩
  have hafter := hbefore.update hsettings hnear
  have htables := (SavepointsUpdated.of_eq hdir).tables
  have hheight' : dir'.store.height = below + 1 := by
    rw [Store.height, htables]
    exact hheight
  rw [← hdir] at hafter
  exact ⟨by rw [hheight']; exact hafter, hheight'⟩

/-! ### Runs that follow the tip -/

/-- A database on the schedule, and a pass that has come to no scheduled height since its last commit. -/
structure Machine.Scheduled (settings : UpdaterSettings) (m : Machine) : Prop where
  dir : OnSchedule settings m.dir m.dir.store.height
  pass : ∀ pass, m.phase = .running pass → ∀ height, m.dir.store.height < height →
    height ≤ pass.height → scheduled settings.savepointInterval height = false

/-- The node is near the tip at every commit, and no recovery takes place. -/
def FollowsTip (settings : UpdaterSettings) (m : Machine) : Action → Prop
  | .receive env => ∀ pass, m.phase = .running pass →
    NearTip settings env.headers (pass.height + 1) ∧
      NearTip settings env.savepoint.headers (pass.height + 1)
  | .finish _ savepoint => ∀ pass, m.phase = .running pass →
    NearTip settings savepoint.headers pass.height
  | .recover => ∀ height depth, m.phase ≠ .reorged height depth
  | _ => True

theorem Machine.scheduled_start (settings : UpdaterSettings) (chain : List BlockData) :
    (Machine.start chain).Scheduled settings :=
  ⟨⟨List.drop_nil.symm, rfl⟩, nofun⟩

theorem Machine.Scheduled.failed {m : Machine} (h : OnSchedule settings m.dir m.dir.store.height)
    (err : UpdateError) : (m.failed err).Scheduled settings := by
  cases err <;> exact ⟨h, nofun⟩

section

variable [Digests] {config : IndexConfig} {m : Machine}

theorem Machine.Scheduled.receive (hsettings : KeepsSavepoints settings) (h : m.Scheduled settings)
    (hbegun : m.Begun) {pass : Pass} (hphase : m.phase = .running pass) {env : ReceiveEnv}
    (hfollows : FollowsTip settings m (.receive env)) :
    (m.step config settings (.receive env)).Scheduled settings := by
  obtain ⟨⟨count, hcount, hle⟩, hnear⟩ := hfollows pass hphase
  have hpass := hbegun pass hphase
  have hbelow : m.dir.store.height ≤ pass.height := by
    have hcounted := hpass.counted
    omega
  have hon : OnSchedule settings m.dir pass.height := h.dir.of_none hbelow (h.pass pass hphase)
  simp only [Machine.step, hphase]
  cases hchannel : pass.channel with
  | nil => exact h
  | cons block rest =>
    dsimp only
    rcases receiveBlock_cases config settings m.bestChain m.dir { pass with channel := rest } block env
      with ⟨hdir, hok⟩ | ⟨-, tables, htables, hdir, hok⟩
    · split
      · rename_i err dir' heq
        rw [heq] at hdir
        obtain rfl : dir' = m.dir := hdir
        exact .failed h.dir err
      · rename_i pass' dir' heq
        rw [heq] at hdir hok
        obtain rfl : dir' = m.dir := hdir
        obtain ⟨-, hreceived, -, hrequired⟩ := hok pass' rfl
        refine ⟨h.dir, fun running hrunning height hlt hheight => ?_⟩
        cases hrunning
        rw [hreceived.height] at hheight
        obtain hheight | rfl := Nat.le_succ_iff.mp hheight
        · exact h.pass pass hphase height hlt hheight
        · obtain ⟨count', hcount', hnot⟩ := hrequired hsettings.blocks hsettings.enabled
          rw [hcount] at hcount'
          cases hcount'
          rw [hon.last, isSavepointRequired_eq hsettings hle] at hnot
          exact Except.ok.inj hnot
    · have hlength : tables.headers.length = pass.height + 1 := by
        rw [htables, List.length_append, hpass.height]
        rfl
      have hcommit : ∀ dir', (receiveBlock config settings m.bestChain m.dir
          { pass with channel := rest } block env).2 = dir' →
          OnSchedule settings dir' dir'.store.height ∧ dir'.store.height = pass.height + 1 := by
        rintro _ rfl
        exact hon.commit hsettings hlength hnear hdir
      split
      · rename_i err dir' heq
        exact .failed (hcommit dir' (by rw [heq])).1 err
      · rename_i pass' dir' heq
        obtain ⟨hnext, hheight⟩ := hcommit dir' (by rw [heq])
        obtain ⟨hreceived, -⟩ := hok pass' (by rw [heq])
        refine ⟨hnext, fun running hrunning height hlt hle => ?_⟩
        cases hrunning
        rw [hreceived.height] at hle
        exact absurd (hheight ▸ hlt) (Nat.not_lt.mpr hle)

theorem Machine.Scheduled.finish (hsettings : KeepsSavepoints settings) (h : m.Scheduled settings)
    (hbegun : m.Begun) {pass : Pass} (hphase : m.phase = .running pass) {order : CacheOrder}
    {savepoint : SavepointEnv} (hfollows : FollowsTip settings m (.finish order savepoint)) :
    (m.step config settings (.finish order savepoint)).Scheduled settings := by
  have hpass := hbegun pass hphase
  have hnear := hfollows pass hphase
  have hon : ∀ dir', (finishPass config settings m.dir pass order savepoint).2 = dir' →
      OnSchedule settings dir' dir'.store.height := by
    rintro _ rfl
    rcases finishPass_cases config settings m.dir pass order savepoint with
      ⟨hdir, -⟩ | ⟨hpos, tables, htables, hdir⟩
    · rw [hdir]
      exact h.dir
    · have hcounted := hpass.counted
      obtain ⟨below, hbelow⟩ : ∃ below, pass.height = below + 1 := ⟨pass.height - 1, by omega⟩
      have hon : OnSchedule settings m.dir below :=
        h.dir.of_none (by omega) fun height hlt hle => h.pass pass hphase height hlt (by omega)
      rw [hbelow] at hnear hdir
      exact (hon.commit hsettings (by rw [htables, ← hpass.height, hbelow]) hnear hdir).1
  simp only [Machine.step, hphase]
  split
  · split
    · rename_i heq
      exact .failed (hon _ (by rw [heq])) _
    · rename_i heq
      exact ⟨hon _ (by rw [heq]), by rintro _ ⟨⟩⟩
  · exact h

/-- A step near the tip keeps the savepoints on the schedule. -/
theorem Machine.Scheduled.step (hsettings : KeepsSavepoints settings) (h : m.Scheduled settings)
    (hbegun : m.Begun) {action : Action} (hfollows : FollowsTip settings m action) :
    (m.step config settings action).Scheduled settings := by
  cases action with
  | bestChain chain =>
    rw [Machine.step_bestChain]
    exact ⟨h.dir, h.pass⟩
  | restart =>
    rw [Machine.step_restart]
    exact ⟨h.dir, by rintro _ ⟨⟩⟩
  | update =>
    cases hphase : m.phase with
    | idle | returned result =>
      simp only [Machine.step, hphase]
      exact ⟨h.dir, by rintro _ ⟨⟩⟩
    | ready | running pass | reorged height depth => simpa only [Machine.step, hphase] using h
  | start blockCount fault =>
    cases hphase : m.phase with
    | ready =>
      simp only [Machine.step, hphase]
      split
      · exact .failed h.dir _
      · rename_i pass hstart
        refine ⟨h.dir, fun running hrunning height hlt hle => ?_⟩
        cases hrunning
        have hcounted := (startPass_begun hstart).counted
        have hnone := startPass_uncommitted hstart
        simp only at hlt
        omega
    | idle | running pass | reorged height depth | returned result =>
      simpa only [Machine.step, hphase] using h
  | fetch givesUp =>
    cases hphase : m.phase with
    | running pass =>
      simp only [Machine.step, hphase]
      refine ⟨h.dir, fun running hrunning height hlt hle => ?_⟩
      cases hrunning
      rw [Pass.height_fetch] at hle
      exact h.pass pass hphase height hlt hle
    | idle | ready | reorged height depth | returned result =>
      simpa only [Machine.step, hphase] using h
  | receive env =>
    cases hphase : m.phase with
    | running pass => exact h.receive hsettings hbegun hphase hfollows
    | idle | ready | reorged height depth | returned result =>
      simpa only [Machine.step, hphase] using h
  | finish order savepoint =>
    cases hphase : m.phase with
    | running pass => exact h.finish hsettings hbegun hphase hfollows
    | idle | ready | reorged height depth | returned result =>
      simpa only [Machine.step, hphase] using h
  | recover =>
    cases hphase : m.phase with
    | reorged height depth => exact absurd hphase (hfollows height depth)
    | idle | ready | running pass | returned result =>
      simpa only [Machine.step, hphase] using h

/-- The savepoints of a run that follows the tip are on the schedule. -/
theorem Machine.scheduled_run (config : IndexConfig) (hsettings : KeepsSavepoints settings)
    (chain : List BlockData) {actions : List Action}
    (hfollows : EachStep (Machine.step config settings) (FollowsTip settings) (.start chain) actions) :
    (run (Machine.step config settings) (.start chain) actions).Begun ∧
      (run (Machine.step config settings) (.start chain) actions).Scheduled settings :=
  always_of_eachStep (P := fun m : Machine => m.Begun ∧ m.Scheduled settings)
    (fun _ action _ h hstep => ⟨(h.1.step action).1, h.2.step hsettings h.1 hstep⟩)
    ⟨Machine.begun_start chain, Machine.scheduled_start settings chain⟩ hfollows actions
    (List.prefix_refl _)

end

end Lord.Index
