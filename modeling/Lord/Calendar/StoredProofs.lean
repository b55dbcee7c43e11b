import Lord.Calendar.AnchorRuns

/-! The stored proofs over the sections of a tick: a section leaves those that it finds and those that
it builds. -/

namespace Lord.Calendar

open Ots Bitcoin

/-- A proof that a finalization built, and the block that it was built from. -/
structure Built where
  proof : Bytes
  height : UInt32
  block : Block

/-- A tick has installed its snapshot. -/
def Phase.ticking : Phase → Bool
  | .installed | .settled | .funded _ | .drained .. => true
  | .idle | .loaded _ => false

section

variable [Digests] [OtsCodec]

/-- The proofs that are built when a pending anchor is settled. -/
def builtProofs (pending : PendingAnchor) (env : SettleEnv) : Result (List Built) := do
  match ← env.findConfirmedTx pending.txid with
  | none => .ok []
  | some (height, block, tx) => do
    let merkleRoot ← okOr (Hex.decode pending.merkleRoot) "invalid hex"
    let proofs ← confirmedProofs pending merkleRoot height block tx
    .ok (proofs.map fun entry => ⟨entry.2, height, block⟩)

namespace System

/-- The proofs that a section builds. -/
def built (s : System) (action : Action) : List Built :=
  match action, s.phase, s.inner.state.store.pendingAnchor with
  | .settle env, .installed, some pending => (builtProofs pending env).toOption.getD []
  | _, _, _ => []

/-- The result of the section, when it is the next one of the tick. -/
def result (config : AnchorConfig) (s : System) (action : Action) : Option (Result Phase) :=
  match action, s.phase with
  | .load read, .idle => some (loadSection s.inner read)
  | .install, .loaded _ => some (.ok .installed)
  | .settle env, .installed => some (settleSection s.inner config env).1
  | .fund env, .settled => some (fundSection s.inner config s.lastTx env).1
  | .drain env, .funded now => some (drainSection s.inner config env now).1
  | .broadcast env, .drained now batch merkleRoot =>
    some (broadcastSection s.inner s.lastTx env now batch merkleRoot).1
  | _, _ => none

/-- The section ends a tick that returns Ok. -/
def returnsOk (config : AnchorConfig) (s : System) (action : Action) : Bool :=
  match s.result config action with
  | some (.ok .idle) => true
  | _ => false

/-- The section is the first one of a tick. -/
def begins (s : System) (action : Action) : Bool :=
  match action, s.phase with
  | .load _, .idle => true
  | _, _ => false

end System

end

/-! ### What a section leaves in memory and on disk -/

/-- The stored proofs are good, and the pending anchor has the root of its batch. -/
structure Stores [Digests] (good : Bytes → Prop) (state : CalendarState) : Prop where
  proofs : ∀ proof ∈ state.store.proofs.values, good proof
  pending : ∀ pending, state.store.pendingAnchor = some pending →
    ∃ merkleRoot, otsMerkleRoot (pending.batch.map Subtype.val) = some merkleRoot ∧
      pending.merkleRoot = Hex.encode merkleRoot

/-- The state is left in memory, and the disk has it or is as it was. -/
structure Leaves [Digests] (good : Bytes → Prop) (inner ended : CalendarInner) : Prop where
  memory : Stores good ended.state
  disk : loadState ended.files = loadState inner.files ∨ loadState ended.files = ended.state

section

variable [Digests] {good : Bytes → Prop} {inner ended : CalendarInner}

theorem Stores.mono {other : Bytes → Prop} {state : CalendarState} (h : Stores good state)
    (himp : ∀ proof, good proof → other proof) : Stores other state :=
  ⟨fun proof hmem => himp proof (h.proofs proof hmem), h.pending⟩

/-- The same proofs, and the same pending anchor or none. -/
theorem Stores.same {state after : CalendarState} (h : Stores good state)
    (hproofs : after.store.proofs = state.store.proofs)
    (hpending : after.store.pendingAnchor = none ∨
      after.store.pendingAnchor = state.store.pendingAnchor) : Stores good after := by
  refine ⟨fun proof hmem => h.proofs proof (hproofs ▸ hmem), fun pending heq => ?_⟩
  rcases hpending with hnone | hsame
  · rw [hnone] at heq
    cases heq
  · exact h.pending pending (hsame ▸ heq)

theorem Leaves.unsaved (h : Stores good ended.state) (hfiles : ended.files = inner.files) :
    Leaves good inner ended :=
  ⟨h, .inl (by rw [hfiles])⟩

theorem Leaves.save (h : Stores good ended.state) (inner : CalendarInner)
    (hfiles : ended.files = inner.files) (write : Result Unit) :
    Leaves good inner (ended.save write).2 := by
  cases write with
  | ok _ => exact ⟨h, .inr rfl⟩
  | error err => exact .unsaved h hfiles

theorem Leaves.saveThen (h : Stores good ended.state) (inner : CalendarInner)
    (hfiles : ended.files = inner.files) (write : Result Unit) (phase : Phase) :
    Leaves good inner (ended.saveThen write phase).2 :=
  .save h inner hfiles write

omit [Digests] in
theorem values_putProofs {proofs : List (Bytes32 × Bytes)} {store : CalendarStore} {proof : Bytes}
    (h : proof ∈ (proofs.foldl (fun store entry => store.putProof entry.1 entry.2)
      store).proofs.values) : proof ∈ store.proofs.values ∨ proof ∈ proofs.map Prod.snd := by
  induction proofs generalizing store with
  | nil => exact .inl h
  | cons entry rest ih =>
    rw [List.foldl_cons] at h
    rcases ih h with hstore | hrest
    · obtain ⟨key, hentry⟩ := (SortedMap.mem_values _).mp hstore
      rcases (SortedMap.mem_entries_insert _).mp hentry with heq | ⟨hold, -⟩
      · cases heq
        exact .inr List.mem_cons_self
      · exact .inl ((SortedMap.mem_values _).mpr ⟨key, hold⟩)
    · exact .inr (List.mem_cons_of_mem _ hrest)

variable [OtsCodec]

theorem finalizeAnchor_leaves {pending : PendingAnchor} {env : SettleEnv} {height : UInt32}
    {block : Block} {tx : Transaction} (h : Stores good inner.state)
    (hfound : env.findConfirmedTx pending.txid = .ok (some (height, block, tx)))
    (hbuilt : ∀ built ∈ (builtProofs pending env).toOption.getD [], good built.proof)
    (hfinal : finalizeAnchor inner pending env height block tx = .ok ended) :
    Stores good ended.state ∧ ended.files = inner.files := by
  obtain ⟨merkleRoot, hroot, hfinal⟩ := bind_eq_ok.mp hfinal
  obtain ⟨anchoredAt, -, hfinal⟩ := bind_eq_ok.mp hfinal
  obtain ⟨proofs, hproofs, hfinal⟩ := bind_eq_ok.mp hfinal
  cases hfinal
  have hlist : builtProofs pending env = .ok (proofs.map fun entry => ⟨entry.2, height, block⟩) := by
    refine bind_eq_ok.mpr ⟨_, hfound, bind_eq_ok.mpr ⟨merkleRoot, ?_, ?_⟩⟩
    · exact Result.context_eq_ok.mp hroot
    · exact bind_eq_ok.mpr ⟨proofs, hproofs, rfl⟩
  rw [hlist] at hbuilt
  refine ⟨⟨fun proof hmem => ?_, nofun⟩, rfl⟩
  rcases values_putProofs hmem with hold | hnew
  · exact h.proofs proof hold
  · obtain ⟨entry, hentry, rfl⟩ := List.mem_map.mp hnew
    exact hbuilt _ (List.mem_map_of_mem hentry)

theorem settleSection_leaves (h : Stores good inner.state) (config : AnchorConfig) (env : SettleEnv)
    (hbuilt : ∀ pending, inner.state.store.pendingAnchor = some pending →
      ∀ built ∈ (builtProofs pending env).toOption.getD [], good built.proof) :
    Leaves good inner (settleSection inner config env).2 := by
  unfold settleSection
  split
  · exact .unsaved h rfl
  rename_i pending hpending
  split
  · exact .unsaved h rfl
  · rename_i height block tx hfound
    split
    · exact .unsaved h rfl
    · rename_i finalized hfinal
      obtain ⟨hstores, hfiles⟩ := finalizeAnchor_leaves h hfound (hbuilt pending hpending) hfinal
      exact .saveThen hstores inner hfiles env.write .idle
  · split
    · have hrestored : Stores good (restorePendingBatch inner pending).state :=
        h.same rfl (.inl rfl)
      exact .saveThen hrestored inner rfl env.write .settled
    · exact .unsaved h rfl

omit [OtsCodec] in
theorem fundSection_leaves (h : Stores good inner.state) (config : AnchorConfig) (lastTx : Nat)
    (env : FundEnv) : Leaves good inner (fundSection inner config lastTx env).2 := by
  unfold fundSection
  split
  · exact .unsaved h rfl
  split
  · exact .unsaved h rfl
  split
  · exact .unsaved h rfl
  split
  · rename_i reason hreason
    have hskipped : Stores good (recordAnchorSkipped inner reason).state := h.same rfl (.inr rfl)
    exact .saveThen hskipped inner rfl env.write .idle
  split
  · exact .unsaved h rfl
  · exact .unsaved h rfl

omit [OtsCodec] in
theorem drainSection_leaves (h : Stores good inner.state) (config : AnchorConfig) (env : DrainEnv)
    (now : Nat) : Leaves good inner (drainSection inner config env now).2 := by
  rcases drainSection_cases inner config env now with
    ⟨queue, hrun, -⟩ | ⟨batch, queue, merkleRoot, -, -, -, hrun⟩
  · rw [hrun]
    exact .unsaved (h.same rfl (.inr rfl)) rfl
  · rw [hrun]
    have hfiled : Stores good (fileBatch inner queue batch merkleRoot).state :=
      h.same rfl (.inr rfl)
    exact .saveThen hfiled inner rfl env.write _

omit [OtsCodec] in
theorem broadcastSection_leaves (h : Stores good inner.state) (lastTx : Nat) (env : BroadcastEnv)
    (now : Nat) {batch : List Bytes32} {merkleRoot : Bytes}
    (hroot : otsMerkleRoot (batch.map Subtype.val) = some merkleRoot) :
    Leaves good inner (broadcastSection inner lastTx env now batch merkleRoot).2.1 := by
  unfold broadcastSection
  split
  · have hrestored : Stores good (restoreDrainedBatch inner batch merkleRoot).state :=
      h.same rfl (.inr rfl)
    exact .save hrestored inner rfl env.write
  · rename_i txid hsent
    split
    · exact .unsaved h rfl
    · rename_i broadcastAt hclock
      have hrecorded :
          Stores good (recordPendingAnchor inner batch merkleRoot txid broadcastAt).state := by
        refine ⟨h.proofs, ?_⟩
        rintro pending ⟨⟩
        exact ⟨merkleRoot, hroot, rfl⟩
      exact .saveThen hrecorded inner rfl env.write .idle

theorem submitDigest_leaves (h : Stores good inner.state) (write : Result Unit) (digest : Bytes) :
    Leaves good inner (submitDigest inner write digest).2 := by
  unfold submitDigest
  cases toArray32 digest with
  | none => exact .unsaved h rfl
  | some digest =>
    dsimp only
    cases inner.state.store.getProof digest with
    | some existing => exact .unsaved h rfl
    | none =>
      have hqueued : Stores good { inner.state with queue := inner.state.queue.enqueue digest } :=
        h.same rfl (.inr rfl)
      cases write with
      | ok _ => exact ⟨hqueued, .inr rfl⟩
      | error err => exact .unsaved hqueued rfl

/-! ### What a step of the calendar leaves -/

/-- The state that a step works on. -/
def System.source (s : System) (action : Action) : CalendarState :=
  match action, s.phase with
  | .install, .loaded snapshot => snapshot
  | .restart, _ => loadState s.inner.files
  | _, _ => s.inner.state

omit [Digests] in
theorem System.submit_inner (s : System) (digest : Bytes) (write : Result Unit) :
    (s.submit digest write).inner = (submitDigest s.inner write digest).2 := by
  unfold System.submit
  split
  · rename_i heq _
    rw [heq]
  · rename_i heq _
    rw [heq]

theorem System.step_leaves {config : AnchorConfig} {s : System} {action : Action}
    (h : Stores good (s.source action))
    (hdrained : ∀ now batch merkleRoot, s.phase = .drained now batch merkleRoot →
      otsMerkleRoot (batch.map Subtype.val) = some merkleRoot)
    (hbuilt : ∀ built ∈ s.built action, good built.proof) :
    Leaves good s.inner (s.step config action).inner := by
  cases action with
  | submit digest write =>
    unfold System.step
    rw [submit_inner]
    exact submitDigest_leaves h write digest
  | load read =>
    cases hphase : s.phase <;> simp only [step, hphase] <;> exact .unsaved h rfl
  | install =>
    cases hphase : s.phase with
    | loaded snapshot =>
      simp only [source, hphase] at h
      simp only [step, hphase]
      have hinstalled : Stores good (installSection s.inner snapshot).state := h
      exact .unsaved hinstalled rfl
    | _ =>
      simp only [source, hphase] at h
      simp only [step, hphase]
      exact .unsaved h rfl
  | settle env =>
    cases hphase : s.phase with
    | installed =>
      simp only [step, hphase]
      refine settleSection_leaves h config env fun pending hpending built hmem => hbuilt built ?_
      simpa only [System.built, hphase, hpending] using hmem
    | _ =>
      simp only [step, hphase]
      exact .unsaved h rfl
  | fund env =>
    cases hphase : s.phase with
    | settled =>
      simp only [step, hphase]
      exact fundSection_leaves h config s.lastTx env
    | _ =>
      simp only [step, hphase]
      exact .unsaved h rfl
  | drain env =>
    cases hphase : s.phase with
    | funded now =>
      simp only [step, hphase]
      exact drainSection_leaves h config env now
    | _ =>
      simp only [step, hphase]
      exact .unsaved h rfl
  | broadcast env =>
    cases hphase : s.phase with
    | drained now batch merkleRoot =>
      simp only [step, hphase]
      exact broadcastSection_leaves h s.lastTx env now (hdrained now batch merkleRoot hphase)
    | _ =>
      simp only [step, hphase]
      exact .unsaved h rfl
  | restart => exact .unsaved h rfl

/-! ### What a step makes of the phase -/

omit [Digests] [OtsCodec] in
theorem saveThen_ok {write : Result Unit} {saved phase : Phase}
    (h : (inner.saveThen write saved).1 = .ok phase) : phase = saved := by
  cases write with
  | ok _ => exact (Except.ok.inj h).symm
  | error err => cases h

theorem settleSection_ok {config : AnchorConfig} {env : SettleEnv} {phase : Phase}
    (h : (settleSection inner config env).1 = .ok phase) : phase = .idle ∨ phase = .settled := by
  unfold settleSection at h
  split at h
  · exact .inr (Except.ok.inj h).symm
  split at h
  · cases h
  · split at h
    · cases h
    · exact .inl (saveThen_ok h)
  · split at h
    · exact .inr (saveThen_ok h)
    · exact .inl (Except.ok.inj h).symm

omit [Digests] [OtsCodec] in
theorem fundSection_ok {config : AnchorConfig} {lastTx : Nat} {env : FundEnv} {phase : Phase}
    (h : (fundSection inner config lastTx env).1 = .ok phase) :
    phase = .idle ∨ phase = .funded env.now := by
  unfold fundSection at h
  split at h
  · exact .inl (Except.ok.inj h).symm
  split at h
  · cases h
  split at h
  · cases h
  split at h
  · exact .inl (saveThen_ok h)
  split at h
  · cases h
  · exact .inr (Except.ok.inj h).symm

omit [OtsCodec] in
theorem drainSection_ok {config : AnchorConfig} {env : DrainEnv} {now : Nat} {phase : Phase}
    (h : (drainSection inner config env now).1 = .ok phase) :
    phase = .idle ∨ ∃ batch merkleRoot, phase = .drained now batch merkleRoot ∧
      otsMerkleRoot (batch.map Subtype.val) = some merkleRoot := by
  rcases drainSection_cases inner config env now with
    ⟨queue, hrun, -⟩ | ⟨batch, queue, merkleRoot, -, -, hroot, hrun⟩
  · rw [hrun] at h
    exact .inl (Except.ok.inj h).symm
  · rw [hrun] at h
    exact .inr ⟨batch, merkleRoot, saveThen_ok h, hroot⟩

omit [Digests] [OtsCodec] in
theorem broadcastSection_ok {lastTx : Nat} {env : BroadcastEnv} {now : Nat} {batch : List Bytes32}
    {merkleRoot : Bytes} {phase : Phase}
    (h : (broadcastSection inner lastTx env now batch merkleRoot).1 = .ok phase) :
    phase = .idle := by
  unfold broadcastSection at h
  split at h
  · obtain ⟨_, -, herr⟩ := bind_eq_ok.mp h
    cases herr
  split at h
  · cases h
  · exact saveThen_ok h

/-- The ways a section goes on: a tick begins, its snapshot is installed, or it is under way. -/
theorem System.result_cases {config : AnchorConfig} {s : System} {action : Action} {phase : Phase}
    (h : s.result config action = some (.ok phase)) :
    (s.begins action ∧ phase = .loaded (loadState s.inner.files)) ∨
      (∃ snapshot, s.phase = .loaded snapshot ∧ s.source action = snapshot ∧
        phase = .installed) ∨
      (s.phase.ticking ∧ s.source action = s.inner.state ∧ ∀ snapshot, phase ≠ .loaded snapshot) ∧
        ∀ now batch merkleRoot, phase = .drained now batch merkleRoot →
          otsMerkleRoot (batch.map Subtype.val) = some merkleRoot := by
  unfold System.result at h
  split at h
  · rename_i read hphase
    refine .inl ⟨by simp [begins, hphase], ?_⟩
    cases read with
    | ok _ => exact (Except.ok.inj (Option.some.inj h)).symm
    | error err => cases h
  · rename_i snapshot hphase
    exact .inr (.inl ⟨snapshot, hphase, by simp [source, hphase],
      (Except.ok.inj (Option.some.inj h)).symm⟩)
  · rename_i env hphase
    refine .inr (.inr ⟨⟨by rw [hphase]; rfl, rfl, ?_⟩, ?_⟩) <;>
      rcases settleSection_ok (Option.some.inj h) with rfl | rfl <;> nofun
  · rename_i env hphase
    refine .inr (.inr ⟨⟨by rw [hphase]; rfl, rfl, ?_⟩, ?_⟩) <;>
      rcases fundSection_ok (Option.some.inj h) with rfl | rfl <;> nofun
  · rename_i env now hphase
    refine .inr (.inr ⟨⟨by rw [hphase]; rfl, rfl, ?_⟩, ?_⟩)
    · rcases drainSection_ok (Option.some.inj h) with rfl | ⟨batch, merkleRoot, rfl, -⟩ <;> nofun
    · rcases drainSection_ok (Option.some.inj h) with rfl | ⟨batch, merkleRoot, rfl, hroot⟩
      · nofun
      · rintro _ _ _ ⟨⟩
        exact hroot
  · rename_i env now batch merkleRoot hphase
    refine .inr (.inr ⟨⟨by rw [hphase]; rfl, rfl, ?_⟩, ?_⟩) <;>
      cases broadcastSection_ok (Option.some.inj h) <;> nofun
  · cases h

/-- The phase is the one that the section goes on to, or idle, or stays. -/
theorem System.step_phase (config : AnchorConfig) (s : System) (action : Action) :
    s.result config action = some (.ok (s.step config action).phase) ∨
      (s.step config action).phase = .idle ∨
      ((s.step config action).phase = s.phase ∧ s.result config action = none ∧
        s.source action = s.inner.state) := by
  have hnext : ∀ ended : Result Phase × CalendarInner,
      some ended.1 = some (.ok (s.next ended).phase) ∨ (s.next ended).phase = .idle := by
    rintro ⟨phase | err, inner⟩
    · exact .inr rfl
    · exact .inl rfl
  have hstays : ∀ {t : System}, t.phase = s.phase → s.result config action = none →
      s.source action = s.inner.state →
      s.result config action = some (.ok t.phase) ∨ t.phase = .idle ∨
        (t.phase = s.phase ∧ s.result config action = none ∧ s.source action = s.inner.state) :=
    fun hphase hresult hsource => .inr (.inr ⟨hphase, hresult, hsource⟩)
  cases action with
  | submit digest write =>
    refine hstays ?_ rfl rfl
    unfold System.step System.submit
    dsimp only
    split <;> rfl
  | load read =>
    cases hphase : s.phase with
    | idle =>
      simp only [step, result, hphase]
      exact (hnext (loadSection s.inner read, s.inner)).imp_right .inl
    | _ => simp [step, result, source, hphase]
  | install =>
    cases hphase : s.phase with
    | loaded snapshot =>
      simp only [step, result, hphase]
      exact (hnext (.ok .installed, installSection s.inner snapshot)).imp_right .inl
    | _ => simp [step, result, source, hphase]
  | settle env =>
    cases hphase : s.phase with
    | installed =>
      simp only [step, result, hphase]
      exact (hnext (settleSection s.inner config env)).imp_right .inl
    | _ => simp [step, result, source, hphase]
  | fund env =>
    cases hphase : s.phase with
    | settled =>
      simp only [step, result, hphase]
      exact (hnext (fundSection s.inner config s.lastTx env)).imp_right .inl
    | _ => simp [step, result, source, hphase]
  | drain env =>
    cases hphase : s.phase with
    | funded now =>
      simp only [step, result, hphase]
      exact (hnext (drainSection s.inner config env now)).imp_right .inl
    | _ => simp [step, result, source, hphase]
  | broadcast env =>
    cases hphase : s.phase with
    | drained now batch merkleRoot =>
      simp only [step, result, hphase]
      exact (hnext ((broadcastSection s.inner s.lastTx env now batch merkleRoot).1,
        (broadcastSection s.inner s.lastTx env now batch merkleRoot).2.1)).imp_right .inl
    | _ => simp [step, result, source, hphase]
  | restart => exact .inr (.inl rfl)

/-! ### What a step keeps -/

/-- The proofs in memory, on disk and in a snapshot that is not yet installed are good, and a drained
batch has its root. -/
structure Keeps (good : Bytes → Prop) (s : System) : Prop where
  memory : Stores good s.inner.state
  disk : Stores good (loadState s.inner.files)
  snapshot : ∀ snapshot, s.phase = .loaded snapshot → Stores good snapshot
  drained : ∀ now batch merkleRoot, s.phase = .drained now batch merkleRoot →
    otsMerkleRoot (batch.map Subtype.val) = some merkleRoot

omit [OtsCodec] in
theorem Keeps.mono {other : Bytes → Prop} {s : System} (h : Keeps good s)
    (himp : ∀ proof, good proof → other proof) : Keeps other s :=
  ⟨h.memory.mono himp, h.disk.mono himp, fun snapshot hphase => (h.snapshot snapshot hphase).mono himp,
    h.drained⟩

omit [OtsCodec] in
theorem Keeps.source {s : System} (h : Keeps good s) (action : Action) :
    Stores good (s.source action) := by
  unfold System.source
  split
  · rename_i snapshot hphase
    exact h.snapshot snapshot hphase
  · exact h.disk
  · exact h.memory

theorem Keeps.step {config : AnchorConfig} {s : System} (h : Keeps good s) {action : Action}
    (hbuilt : ∀ built ∈ s.built action, good built.proof) : Keeps good (s.step config action) := by
  have hleaves : Leaves good s.inner (s.step config action).inner :=
    System.step_leaves (h.source action) h.drained hbuilt
  refine ⟨hleaves.memory, ?_, ?_, ?_⟩
  · rcases hleaves.disk with hold | hsaved
    · rw [hold]
      exact h.disk
    · rw [hsaved]
      exact hleaves.memory
  · intro snapshot hloaded
    rcases s.step_phase config action with hresult | hidle | ⟨hsame, -⟩
    · rw [hloaded] at hresult
      rcases System.result_cases hresult with ⟨-, heq⟩ | ⟨_, -, -, heq⟩ | ⟨⟨-, -, hne⟩, -⟩
      · cases heq
        exact h.disk
      · cases heq
      · exact absurd rfl (hne snapshot)
    · rw [hloaded] at hidle
      cases hidle
    · exact h.snapshot snapshot (hsame.symm.trans hloaded)
  · intro now batch merkleRoot hdrained
    rcases s.step_phase config action with hresult | hidle | ⟨hsame, -⟩
    · rw [hdrained] at hresult
      rcases System.result_cases hresult with ⟨-, heq⟩ | ⟨_, -, -, heq⟩ | ⟨-, hroot⟩
      · cases heq
      · cases heq
      · exact hroot now batch merkleRoot rfl
    · rw [hdrained] at hidle
      cases hidle
    · exact h.drained now batch merkleRoot (hsame.symm.trans hdrained)

omit [Digests] [OtsCodec] in
theorem System.begins_iff {s : System} {action : Action} :
    s.begins action = true ↔ s.phase = .idle ∧ ∃ read, action = .load read := by
  unfold System.begins
  split
  · rename_i read hphase
    simp [hphase]
  · rename_i hother
    simp only [Bool.false_eq_true, false_iff, not_and, not_exists]
    rintro hphase read rfl
    exact hother read rfl hphase

end

end Lord.Calendar
