import Lord.Calendar.KnownDigests

/-! The places of an accepted digest between two ticks: a stored proof, the pending anchor or the
queue.  A drained batch stands in none of them until its broadcast ends. -/

namespace Lord.Calendar

open Ots Commit Runs

theorem CalendarState.Holds.mono {s t : CalendarState} {d : Bytes32} (h : s.Holds d)
    (hproof : (s.store.getProof d).isSome → (t.store.getProof d).isSome)
    (hpending : s.store.pendingAnchor = none ∨ t.store.pendingAnchor = s.store.pendingAnchor)
    (hqueue : d ∈ s.queue.pending → d ∈ t.queue.pending) : t.Holds d := by
  rcases h with h | ⟨pending, h, hmem⟩ | h
  · exact .inl (hproof h)
  · rcases hpending with hnone | hsame
    · rw [hnone] at h
      cases h
    · exact .inr (.inl ⟨pending, hsame.trans h, hmem⟩)
  · exact .inr (.inr (hqueue h))

/-- The digest stands in the batch that is drained. -/
def Drained (phase : Phase) (digest : Bytes32) : Prop :=
  ∃ now batch merkleRoot, phase = .drained now batch merkleRoot ∧ digest ∈ batch

section

variable [Digests] [OtsCodec]

/-- The accepted digests are held or drained, and no anchor is pending during a broadcast. -/
abbrev Held : System → Prop :=
  Tracks CalendarState.Holds Drained fun store _ _ => store.pendingAnchor = none

/-- The condition on a step: a digest that a stored proof answers is held on disk; a snapshot that is
installed holds the digests accepted since it was read; a drain is saved, and the broadcast after it
is followed by a save and not by a kill, or else the accepted digests of the batch are held besides. -/
def KeepsHeld (config : AnchorConfig) (s : System) : Action → Prop
  | .drain env => env.write.isOk ∨
    ∀ d ∈ (drained config env s.inner.state.queue).1, d ∈ s.accepted →
      (s.inner.state.store.getProof d).isSome ∨
        d ∈ (drained config env s.inner.state.queue).2.pending
  | .broadcast env => ∀ now batch merkleRoot, s.phase = .drained now batch merkleRoot →
    ((env.broadcast.isOk → env.broadcastAt.isOk) ∧ env.write.isOk) ∨
      ∀ d ∈ batch, d ∈ s.accepted → (loadState s.inner.files).Holds d ∧
        (env.broadcast.isOk → env.broadcastAt.isOk ∨ s.inner.state.Holds d)
  | .restart => ∀ now batch merkleRoot, s.phase = .drained now batch merkleRoot →
    ∀ d ∈ batch, d ∈ s.accepted → (loadState s.inner.files).Holds d
  | action => Fresh CalendarState.Holds s action

omit [Digests] [OtsCodec] in
theorem Held.held {s : System} (h : Held s)
    (hphase : ∀ now batch merkleRoot, s.phase ≠ .drained now batch merkleRoot) :
    (∀ d ∈ s.accepted, s.inner.state.Holds d) ∧
      ∀ d ∈ s.accepted, (loadState s.inner.files).Holds d :=
  Tracks.held h fun _ ⟨now, batch, merkleRoot, heq, _⟩ => hphase now batch merkleRoot heq

theorem Held.drain {config : AnchorConfig} {s : System} (h : Held s) {env : DrainEnv}
    (hkeeps : KeepsHeld config s (.drain env)) : Held (s.step config (.drain env)) := by
  cases hphase : s.phase with
  | funded now =>
    have ⟨hmemory, hdisk⟩ := h.held (by rw [hphase]; rintro _ _ _ ⟨⟩)
    simp only [System.step, hphase]
    rcases drainSection_cases s.inner config env now with
      ⟨queue, hrun, hqueue⟩ | ⟨batch, queue, merkleRoot, hnone, hdrained, -, hrun⟩
    · rw [hrun]
      refine Tracks.next hdisk { s.inner with state := { s.inner.state with queue } } rfl
        (fun d hd => ?_) (.ok .idle) trivial
      exact (hmemory d hd).mono id (.inr rfl) (hqueue d)
    · rw [hrun]
      -- the queue splits into the batch and its rest
      have hsplit : ∀ d ∈ s.accepted,
          (fileBatch s.inner queue batch merkleRoot).state.Holds d ∨ d ∈ batch := by
        intro d hd
        rcases hmemory d hd with hproof | ⟨pending, hpending, -⟩ | hqueue
        · exact .inl (.inl hproof)
        · rw [hnone] at hpending
          cases hpending
        · have hsplit := @mem_drained config env s.inner.state.queue d hqueue
          rw [hdrained] at hsplit
          exact hsplit.symm.imp_left fun hrest => .inr (.inr hrest)
      cases hwrite : env.write with
      | ok _ =>
        have hboth : ∀ d ∈ s.accepted,
            (fileBatch s.inner queue batch merkleRoot).state.Holds d ∨
              Drained (.drained now batch merkleRoot) d := fun d hd =>
          (hsplit d hd).imp_right fun hmem => ⟨now, batch, merkleRoot, rfl, hmem⟩
        exact ⟨hboth, hboth, by rintro _ ⟨⟩, fun _ _ _ _ => hnone⟩
      | error err =>
        refine Tracks.next hdisk (fileBatch s.inner queue batch merkleRoot) rfl (fun d hd => ?_) _
          trivial
        rcases hsplit d hd with hheld | hmem
        · exact hheld
        · rcases hkeeps with hok | hbesides
          · rw [hwrite] at hok
            cases hok
          · rcases hbesides d (by rw [hdrained]; exact hmem) hd with hproof | hqueue
            · exact .inl hproof
            · rw [hdrained] at hqueue
              exact .inr (.inr hqueue)
  | _ => simpa [System.step, hphase] using h

theorem Held.broadcast {config : AnchorConfig} {s : System} (h : Held s) {env : BroadcastEnv}
    (hkeeps : KeepsHeld config s (.broadcast env)) : Held (s.step config (.broadcast env)) := by
  cases hphase : s.phase with
  | drained now batch merkleRoot =>
    have hnone := h.drained now batch merkleRoot hphase
    have hmem_of : ∀ {d}, Drained s.phase d → d ∈ batch := by
      rintro d ⟨now', batch', merkleRoot', heq, hmem⟩
      rw [hphase] at heq
      cases heq
      exact hmem
    have hmemory : ∀ d ∈ s.accepted, s.inner.state.Holds d ∨ d ∈ batch := fun d hd =>
      (h.memory d hd).imp_right hmem_of
    have hdisk : ∀ d ∈ s.accepted, (loadState s.inner.files).Holds d ∨ d ∈ batch := fun d hd =>
      (h.disk d hd).imp_right hmem_of
    have hbesides := hkeeps now batch merkleRoot hphase
    have hlast : ∀ {ended : Result Phase × CalendarInner} (lastTx : Nat), Held (s.next ended) →
        Held { s.next ended with lastTx } := fun _ h => ⟨h.memory, h.disk, h.snapshot, h.drained⟩
    -- a section whose write fails leaves the disk, which holds the batch besides
    have hkept : ¬((env.broadcast.isOk → env.broadcastAt.isOk) ∧ env.write.isOk) →
        ∀ d ∈ s.accepted, (loadState s.inner.files).Holds d := fun hlost d hd =>
      (hdisk d hd).elim id fun hmem => ((hbesides.resolve_left hlost) d hmem hd).1
    simp only [System.step, hphase]
    refine hlast _ ?_
    unfold broadcastSection
    cases hsent : env.broadcast with
    | error err =>
      have hrestored : ∀ d ∈ s.accepted,
          (restoreDrainedBatch s.inner batch merkleRoot).state.Holds d := by
        intro d hd
        rcases hmemory d hd with hheld | hmem
        · exact hheld.mono id (.inr rfl) fun hqueue =>
            DigestQueue.mem_foldl_enqueue.mpr (.inl hqueue)
        · exact .inr (.inr (DigestQueue.mem_foldl_enqueue.mpr (.inr (List.mem_reverse.mpr hmem))))
      cases hwrite : env.write with
      | error _ =>
        exact Tracks.next (hkept (by simp [hwrite, Except.isOk, Except.toBool]))
          (restoreDrainedBatch s.inner batch merkleRoot) rfl hrestored _ trivial
      | ok _ =>
        exact ⟨fun d hd => .inl (hrestored d hd), fun d hd => .inl (hrestored d hd),
          by rintro _ ⟨⟩, by rintro _ _ _ ⟨⟩⟩
    | ok txid =>
      cases hclock : env.broadcastAt with
      | error err =>
        have hlost : ¬((env.broadcast.isOk → env.broadcastAt.isOk) ∧ env.write.isOk) := by
          simp [hsent, hclock, Except.isOk, Except.toBool]
        refine Tracks.next (hkept hlost) s.inner rfl (fun d hd => ?_) _ trivial
        rcases hmemory d hd with hheld | hmem
        · exact hheld
        · refine (((hbesides.resolve_left hlost) d hmem hd).2 (by rw [hsent]; rfl)).resolve_left ?_
          rw [hclock]
          rintro ⟨⟩
      | ok broadcastAt =>
        have hrecorded : ∀ d ∈ s.accepted,
            (recordPendingAnchor s.inner batch merkleRoot txid broadcastAt).state.Holds d := by
          intro d hd
          rcases hmemory d hd with hheld | hmem
          · exact hheld.mono id (.inl hnone) id
          · exact .inr (.inl ⟨_, rfl, hmem⟩)
        cases hwrite : env.write with
        | error _ =>
          exact Tracks.next (hkept (by simp [hwrite, Except.isOk, Except.toBool]))
            (recordPendingAnchor s.inner batch merkleRoot txid broadcastAt) rfl hrecorded _ trivial
        | ok _ =>
          exact ⟨fun d hd => .inl (hrecorded d hd), fun d hd => .inl (hrecorded d hd),
            by rintro _ ⟨⟩, by rintro _ _ _ ⟨⟩⟩
  | _ => simpa [System.step, hphase] using h

theorem Held.step {config : AnchorConfig} {s : System} (h : Held s) {action : Action}
    (hkeeps : KeepsHeld config s action) : Held (s.step config action) := by
  have hplain : ∀ {action : Action}, action.Plain → Fresh CalendarState.Holds s action →
      Held (s.step config action) := fun hplain hfresh =>
    Tracks.plain holds_container
      (fun _ _ ⟨now, batch, merkleRoot, heq, _⟩ => ⟨now, batch, merkleRoot, heq⟩) h hplain hfresh
  cases action with
  | drain env => exact h.drain hkeeps
  | broadcast env => exact h.broadcast hkeeps
  | restart =>
    have hdisk : ∀ d ∈ s.accepted, (loadState s.inner.files).Holds d := by
      intro d hd
      rcases h.disk d hd with hheld | ⟨now, batch, merkleRoot, hphase, hmem⟩
      · exact hheld
      · exact hkeeps now batch merkleRoot hphase d hmem hd
    exact ⟨fun d hd => .inl (hdisk d hd), fun d hd => .inl (hdisk d hd), nofun, nofun⟩
  | _ => exact hplain trivial hkeeps

/-- In a run whose steps meet the condition, every accepted digest has a proof or stands in the
pending anchor or in the queue whenever no tick is in progress. -/
theorem accepted_held {config : AnchorConfig} {calendarDir uri : String} {files : CalendarFiles}
    {actions : List Action}
    (h : EachStep (System.step config) (KeepsHeld config) (System.start calendarDir uri files)
      actions) :
    Always (System.step config) (fun s => s.phase = .idle → ∀ d ∈ s.accepted, s.inner.state.Holds d)
      (System.start calendarDir uri files) actions := by
  have halways := always_of_eachStep (P := Held) (fun s action _ hs hkeeps => hs.step hkeeps)
    (Tracks.start calendarDir uri files) h
  intro front hfront hidle
  exact ((halways front hfront).held (by rw [hidle]; exact nofun)).1

end

/-! ### A submission between the two halves of a reload, and a kill before the broadcast -/

section

attribute [local instance] Format.sha256Digests Format.sha256Codec

instance (state : CalendarState) (digest : Bytes32) : Decidable (state.Holds digest) :=
  decidable_of_iff ((state.store.getProof digest).isSome ∨
    (state.store.pendingAnchor.any fun pending => digest ∈ pending.batch) ∨
      digest ∈ state.queue.pending) (by
    unfold CalendarState.Holds
    cases state.store.pendingAnchor <;> simp)

/-- The install of a snapshot that was read before a submission drops its digest, and a kill between
the save of a drain and the save after its broadcast strands the batch. -/
theorem accepted_not_held :
    (¬Always (System.step regtestDefaults)
      (fun s => s.phase = .idle → ∀ d ∈ s.accepted, s.inner.state.Holds d) emptyCalendar
      (.load (.ok ()) :: exampleSubmit :: (exampleTick (.ok "aa")).drop 1)) ∧
    ¬Always (System.step regtestDefaults)
      (fun s => s.phase = .idle → ∀ d ∈ s.accepted, s.inner.state.Holds d) emptyCalendar
      (exampleSubmit :: (exampleTick (.ok "aa")).take 5 ++ [.restart]) := by
  constructor
  · intro halways
    have hlost := halways _ (List.prefix_refl _) rfl exampleDigest (by decide +kernel)
    revert hlost
    decide +kernel
  · intro halways
    have hlost := halways _ (List.prefix_refl _) rfl exampleDigest (by decide +kernel)
    revert hlost
    decide +kernel

/-- A tick that is neither raced nor killed keeps the digest. -/
theorem accepted_held_tick :
    Always (System.step regtestDefaults)
      (fun s => s.phase = .idle → ∀ d ∈ s.accepted, s.inner.state.Holds d) emptyCalendar
      (exampleSubmit :: exampleTick (.ok "aa")) := by
  refine accepted_held ?_
  simp only [exampleTick, eachStep_cons]
  refine ⟨?_, trivial, ?_, trivial, trivial, .inl rfl, ?_, eachStep_nil⟩
  · intro d _ hproof
    cases hproof
  · intro snapshot _ d hd
    cases hd
  · intro now batch merkleRoot _
    exact .inl ⟨fun _ => rfl, rfl⟩

end

end Lord.Calendar
