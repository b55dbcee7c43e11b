import Lord.Calendar.AnchorRuns
import Lord.Ots.Format

/-! An upgrade and the digests that the calendar accepted: an upgrade looks for a digest in the
proofs, in the batches and in the queue, and not in the pending anchor. -/

namespace Lord.Calendar

open Ots Commit Runs

/-- The digest has a proof, or stands in the queue or in the batch of another merkle root. -/
def CalendarState.KnowsBesides (state : CalendarState) (merkleRoot : Bytes) (digest : Bytes32) :
    Prop :=
  (state.store.getProof digest).isSome ∨
    (∃ entry ∈ state.store.batches.entries, entry.1 ≠ Hex.encode merkleRoot ∧ digest ∈ entry.2) ∨
    digest ∈ state.queue.pending

instance (state : CalendarState) (digest : Bytes32) : Decidable (state.Knows digest) :=
  inferInstanceAs (Decidable (_ ∨ _ ∨ _))

/-- A digest in a batch is known, whatever the merkle root of the batch. -/
theorem CalendarState.Knows.of_entry {state : CalendarState} {entry : String × List Bytes32}
    {digest : Bytes32} (h : entry ∈ state.store.batches.entries) (hmem : digest ∈ entry.2) :
    state.Knows digest :=
  .inr (.inl ⟨entry.2, state.store.batches.mem_values.mpr ⟨entry.1, h⟩, hmem⟩)

/-- A known digest stands in the batch of this merkle root, or is known besides. -/
theorem CalendarState.Knows.besides {state : CalendarState} {digest : Bytes32}
    (h : state.Knows digest) (merkleRoot : Bytes) :
    (∃ batch, (Hex.encode merkleRoot, batch) ∈ state.store.batches.entries ∧ digest ∈ batch) ∨
      state.KnowsBesides merkleRoot digest := by
  rcases h with hproof | ⟨batch, hbatch, hmem⟩ | hqueue
  · exact .inr (.inl hproof)
  · obtain ⟨key, hentry⟩ := state.store.batches.mem_values.mp hbatch
    by_cases hkey : key = Hex.encode merkleRoot
    · exact .inl ⟨batch, hkey ▸ hentry, hmem⟩
    · exact .inr (.inr (.inl ⟨_, hentry, hkey, hmem⟩))
  · exact .inr (.inr (.inr hqueue))

/-! ### Batches that come and go -/

/-- A batch takes the place of one with its merkle root. -/
theorem fileBatch_knows {inner : CalendarInner} {config : AnchorConfig} {env : DrainEnv}
    {queue : DigestQueue} {batch : List Bytes32} {merkleRoot : Bytes}
    (hdrained : drained config env inner.state.queue = (batch, queue)) {d : Bytes32}
    (h : inner.state.KnowsBesides merkleRoot d) :
    (fileBatch inner queue batch merkleRoot).state.Knows d := by
  rcases h with hproof | ⟨entry, hentry, hkey, hmem⟩ | hqueue
  · exact .inl hproof
  · exact .of_entry ((SortedMap.mem_entries_insert _).mpr (.inr ⟨hentry, hkey⟩)) hmem
  · have hsplit := @mem_drained config env inner.state.queue d hqueue
    rw [hdrained] at hsplit
    rcases hsplit with hbatch | hrest
    · exact .of_entry ((SortedMap.mem_entries_insert _).mpr (.inl rfl)) hbatch
    · exact .inr (.inr hrest)

/-- A batch that is put back in the queue stays known. -/
theorem restoreDrainedBatch_knows {inner : CalendarInner} {batch : List Bytes32}
    {merkleRoot : Bytes}
    (hfiled : (Hex.encode merkleRoot, batch) ∈ inner.state.store.batches.entries) {d : Bytes32}
    (h : inner.state.Knows d) : (restoreDrainedBatch inner batch merkleRoot).state.Knows d := by
  rcases h.besides merkleRoot with ⟨other, hother, hmem⟩ | hproof | ⟨entry, hentry, hkey, hmem⟩ |
    hqueue
  · obtain rfl : other = batch := by
      rw [← SortedMap.get_eq_some] at hother hfiled
      simpa [hfiled, eq_comm] using hother
    exact .inr (.inr (DigestQueue.mem_foldl_enqueue.mpr (.inr (List.mem_reverse.mpr hmem))))
  · exact .inl hproof
  · exact .of_entry ((SortedMap.mem_entries_erase _).mpr ⟨hentry, hkey⟩) hmem
  · exact .inr (.inr (DigestQueue.mem_foldl_enqueue.mpr (.inl hqueue)))

/-- The digests of a batch that becomes the pending anchor are known when they are known besides. -/
theorem recordPendingAnchor_knows_iff {inner : CalendarInner} {batch : List Bytes32}
    {merkleRoot : Bytes} {txid : String} {broadcastAt : UInt64} {d : Bytes32} :
    (recordPendingAnchor inner batch merkleRoot txid broadcastAt).state.Knows d ↔
      inner.state.KnowsBesides merkleRoot d := by
  constructor
  · rintro (hproof | ⟨other, hother, hmem⟩ | hqueue)
    · exact .inl hproof
    · obtain ⟨key, hentry⟩ := (SortedMap.mem_values _).mp hother
      obtain ⟨hentry, hkey⟩ := (SortedMap.mem_entries_erase _).mp hentry
      exact .inr (.inl ⟨_, hentry, hkey, hmem⟩)
    · exact .inr (.inr hqueue)
  · rintro (hproof | ⟨entry, hentry, hkey, hmem⟩ | hqueue)
    · exact .inl hproof
    · exact .of_entry ((SortedMap.mem_entries_erase _).mpr ⟨hentry, hkey⟩) hmem
    · exact .inr (.inr hqueue)

/-! ### Runs -/

section

variable [Digests] [OtsCodec]

/-- The accepted digests are known, and a drained batch is on file. -/
abbrev Known : System → Prop :=
  Tracks CalendarState.Knows (fun _ _ => False) fun store batch merkleRoot =>
    (Hex.encode merkleRoot, batch) ∈ store.batches.entries

/-- The condition on a step: a proof that answers a submission is on disk, or its digest is known
there; a snapshot that is installed knows the digests accepted since it was read; a batch that takes
the place of one with its merkle root, and a batch that becomes the pending anchor, leave their
accepted digests known besides. -/
def KeepsKnown (config : AnchorConfig) (s : System) : Action → Prop
  | .drain env => ∀ merkleRoot batch,
    otsMerkleRoot ((drained config env s.inner.state.queue).1.map Subtype.val) = some merkleRoot →
      (Hex.encode merkleRoot, batch) ∈ s.inner.state.store.batches.entries →
      ∀ d ∈ batch, d ∈ s.accepted → s.inner.state.KnowsBesides merkleRoot d
  | .broadcast env => ∀ now batch merkleRoot, s.phase = .drained now batch merkleRoot →
    env.broadcast.isOk → env.broadcastAt.isOk →
      ∀ d ∈ batch, d ∈ s.accepted → s.inner.state.KnowsBesides merkleRoot d
  | action => Fresh CalendarState.Knows s action

omit [Digests] [OtsCodec] in
theorem Known.held {s : System} (h : Known s) :
    (∀ d ∈ s.accepted, s.inner.state.Knows d) ∧
      ∀ d ∈ s.accepted, (loadState s.inner.files).Knows d :=
  Tracks.held h fun _ hfalse => hfalse

theorem Known.drain {config : AnchorConfig} {s : System} (h : Known s) {env : DrainEnv}
    (hkeeps : KeepsKnown config s (.drain env)) : Known (s.step config (.drain env)) := by
  have ⟨hmemory, hdisk⟩ := h.held
  cases hphase : s.phase with
  | funded now =>
    simp only [System.step, hphase]
    rcases drainSection_cases s.inner config env now with
      ⟨queue, hrun, hqueue⟩ | ⟨batch, queue, merkleRoot, -, hdrained, hroot, hrun⟩
    · rw [hrun]
      refine Tracks.next hdisk { s.inner with state := { s.inner.state with queue } } rfl
        (fun d hd => ?_) (.ok .idle) trivial
      exact knows_container.keeps (hmemory d hd) id rfl (fun _ hpending _ => .inl hpending)
        (hqueue d)
    · rw [hrun]
      have hfiled : ∀ d ∈ s.accepted,
          (fileBatch s.inner queue batch merkleRoot).state.Knows d := by
        intro d hd
        refine fileBatch_knows hdrained ?_
        rcases (hmemory d hd).besides merkleRoot with ⟨other, hother, hmem⟩ | hbesides
        · exact hkeeps merkleRoot other (by rw [hdrained]; exact hroot) hother d hmem hd
        · exact hbesides
      rcases (fileBatch s.inner queue batch merkleRoot).saveThen_cases env.write
        (.drained now batch merkleRoot) with ⟨files, hsaved, hload⟩ | ⟨err, hfailed⟩
      · rw [hsaved]
        refine ⟨fun d hd => .inl (hfiled d hd), fun d hd => .inl ?_, by rintro _ ⟨⟩, ?_⟩
        · show (loadState files).Knows d
          rw [hload]
          exact hfiled d hd
        · rintro _ _ _ ⟨⟩
          exact (SortedMap.mem_entries_insert _).mpr (.inl rfl)
      · rw [hfailed]
        exact Tracks.next hdisk (fileBatch s.inner queue batch merkleRoot) rfl hfiled _ trivial
  | _ => simpa [System.step, hphase] using h

theorem Known.broadcast {config : AnchorConfig} {s : System} (h : Known s) {env : BroadcastEnv}
    (hkeeps : KeepsKnown config s (.broadcast env)) : Known (s.step config (.broadcast env)) := by
  have ⟨hmemory, hdisk⟩ := h.held
  cases hphase : s.phase with
  | drained now batch merkleRoot =>
    have hfiled := h.drained now batch merkleRoot hphase
    have hlast : ∀ {ended : Result Phase × CalendarInner} (lastTx : Nat), Known (s.next ended) →
        Known { s.next ended with lastTx } := fun _ h => ⟨h.memory, h.disk, h.snapshot, h.drained⟩
    simp only [System.step, hphase]
    refine hlast _ ?_
    unfold broadcastSection
    cases hsent : env.broadcast with
    | error err =>
      have hrestored : ∀ d ∈ s.accepted,
          (restoreDrainedBatch s.inner batch merkleRoot).state.Knows d :=
        fun d hd => restoreDrainedBatch_knows hfiled (hmemory d hd)
      cases env.write with
      | error _ =>
        exact Tracks.next hdisk (restoreDrainedBatch s.inner batch merkleRoot) rfl hrestored _
          trivial
      | ok _ =>
        exact ⟨fun d hd => .inl (hrestored d hd), fun d hd => .inl (hrestored d hd),
          by rintro _ ⟨⟩, by rintro _ _ _ ⟨⟩⟩
    | ok txid =>
      cases hclock : env.broadcastAt with
      | error err => exact Tracks.next hdisk s.inner rfl hmemory _ trivial
      | ok broadcastAt =>
        refine Tracks.next_saveThen hdisk
          (recordPendingAnchor s.inner batch merkleRoot txid broadcastAt) rfl (fun d hd => ?_) _
          trivial
        rw [recordPendingAnchor_knows_iff]
        rcases (hmemory d hd).besides merkleRoot with ⟨other, hother, hmem⟩ | hbesides
        · obtain rfl : other = batch := by
            rw [← SortedMap.get_eq_some] at hother hfiled
            simpa [hfiled, eq_comm] using hother
          exact hkeeps now other merkleRoot hphase (by rw [hsent]; rfl) (by rw [hclock]; rfl) d hmem
            hd
        · exact hbesides
  | _ => simpa [System.step, hphase] using h

theorem Known.step {config : AnchorConfig} {s : System} (h : Known s) {action : Action}
    (hkeeps : KeepsKnown config s action) : Known (s.step config action) := by
  have hplain : ∀ {action : Action}, action.Plain → Fresh CalendarState.Knows s action →
      Known (s.step config action) := fun hplain hfresh =>
    Tracks.plain knows_container (fun _ _ hfalse => hfalse.elim) h hplain hfresh
  cases action with
  | drain env => exact h.drain hkeeps
  | broadcast env => exact h.broadcast hkeeps
  | restart =>
    obtain ⟨-, hdisk⟩ := h.held
    exact ⟨fun d hd => .inl (hdisk d hd), fun d hd => .inl (hdisk d hd), nofun, nofun⟩
  | _ => exact hplain trivial hkeeps

/-- In a run whose steps meet the condition, an upgrade finds every digest that was accepted. -/
theorem upgradeDigest_known {config : AnchorConfig} {calendarDir uri : String}
    {files : CalendarFiles} {actions : List Action}
    (h : EachStep (System.step config) (KeepsKnown config) (System.start calendarDir uri files)
      actions) :
    Always (System.step config)
      (fun s => ∀ d ∈ s.accepted, upgradeDigest s.inner d.val ≠ .error .notFound)
      (System.start calendarDir uri files) actions := by
  have halways := always_of_eachStep (P := Known) (fun s action _ hs hkeeps => hs.step hkeeps)
    (Tracks.start calendarDir uri files) h
  intro front hfront d hd hnone
  exact upgradeDigest_notFound_iff.mp hnone ((halways front hfront).held.1 d hd)

end

/-! ### Between the broadcast and the confirmation -/

section

attribute [local instance] Format.sha256Digests Format.sha256Codec

def exampleDigest : Bytes32 := Bytes32.replicate 8

/-- A calendar in a directory without files. -/
def emptyCalendar : System := .start "/data/calendar" "http://127.0.0.1:14788" ⟨none, none, none⟩

def regtestDefaults : AnchorConfig where
  regtest := true
  minTxInterval := 1
  batchMax := 64
  walletName := none
  pendingAnchorTimeout := 60
  maxAnchorFeeSats := none
  minWalletBalanceSats := none
  ltpPriority := false

/-- A tick with a funded wallet whose broadcast ends like this. -/
def exampleTick (broadcast : Result String) : List Action :=
  [.load (.ok ()), .install, .settle ⟨fun _ => .ok none, 1000, .ok 1000, .ok ()⟩,
    .fund ⟨1000, .ok none, .ok [100000], .ok [100000], .ok ()⟩,
    .drain ⟨.error "no mempool", .ok ()⟩, .broadcast ⟨broadcast, .ok 1000, .ok ()⟩]

def exampleSubmit : Action := .submit exampleDigest.val (.ok ())

/-- The digest of a batch that waits for its confirmation is not found. -/
theorem upgradeDigest_notFound_pending :
    exampleDigest ∈ (run (System.step regtestDefaults) emptyCalendar
        (exampleSubmit :: exampleTick (.ok "aa"))).accepted ∧
      upgradeDigest (run (System.step regtestDefaults) emptyCalendar
        (exampleSubmit :: exampleTick (.ok "aa"))).inner exampleDigest.val = .error .notFound :=
  ⟨by decide +kernel, upgradeDigest_notFound_iff.mpr (by decide +kernel)⟩

/-- And a failed broadcast puts it back in the queue, where it is found. -/
theorem upgradeDigest_known_restored :
    Always (System.step regtestDefaults)
      (fun s => ∀ d ∈ s.accepted, upgradeDigest s.inner d.val ≠ .error .notFound)
      emptyCalendar (exampleSubmit :: exampleTick (.error "sendrawtransaction failed")) := by
  refine upgradeDigest_known ?_
  simp only [exampleTick, eachStep_cons]
  refine ⟨?_, trivial, ?_, trivial, trivial, ?_, ?_, eachStep_nil⟩
  · intro d _ hproof
    cases hproof
  · intro snapshot _ d hd
    cases hd
  · intro merkleRoot batch _ hbatch
    cases hbatch
  · intro now batch merkleRoot _ hok
    cases hok

end

end Lord.Calendar
