import Lord.Calendar.Anchor
import Lord.Lib.Runs

/-! Runs of submissions and of the sections of anchor ticks: where the accepted digests stay. -/

namespace Lord.Calendar

open Ots Bitcoin Commit Runs

/-! ### Places of a digest -/

/-- A way to hold digests in the proofs, the queue and other places: it holds the digests of stored
proofs and of the queue, and a state keeps what it holds when only its pending anchor may go. -/
structure Container (H : CalendarState → Bytes32 → Prop) : Prop where
  proof : ∀ {state digest}, (state.store.getProof digest).isSome → H state digest
  queue : ∀ {state : CalendarState} {digest}, digest ∈ state.queue.pending → H state digest
  keeps : ∀ {s t : CalendarState} {digest}, H s digest →
    ((s.store.getProof digest).isSome → (t.store.getProof digest).isSome) →
    t.store.batches = s.store.batches →
    (∀ pending, s.store.pendingAnchor = some pending → digest ∈ pending.batch →
      t.store.pendingAnchor = some pending ∨ H t digest) →
    (digest ∈ s.queue.pending → digest ∈ t.queue.pending) → H t digest

theorem knows_container : Container CalendarState.Knows where
  proof h := .inl h
  queue h := .inr (.inr h)
  keeps := by
    rintro s t digest (hproof | hbatch | hqueue) hproofs hbatches - hqueues
    · exact .inl (hproofs hproof)
    · exact .inr (.inl (hbatches ▸ hbatch))
    · exact .inr (.inr (hqueues hqueue))

/-- The digest has a proof, or stands in the pending anchor or in the queue. -/
def CalendarState.Holds (state : CalendarState) (digest : Bytes32) : Prop :=
  (state.store.getProof digest).isSome ∨
    (∃ pending, state.store.pendingAnchor = some pending ∧ digest ∈ pending.batch) ∨
    digest ∈ state.queue.pending

theorem holds_container : Container CalendarState.Holds where
  proof h := .inl h
  queue h := .inr (.inr h)
  keeps := by
    rintro s t digest (hproof | ⟨pending, hpending, hbatch⟩ | hqueue) hproofs - hanchor hqueues
    · exact .inl (hproofs hproof)
    · rcases hanchor pending hpending hbatch with hsame | hholds
      · exact .inr (.inl ⟨pending, hsame, hbatch⟩)
      · exact hholds
    · exact .inr (.inr (hqueues hqueue))

/-! ### What the sections leave -/

theorem getProof_putProof {store : CalendarStore} {digest other : Bytes32} {proof : Bytes}
    (h : other = digest ∨ (store.getProof other).isSome) :
    ((store.putProof digest proof).getProof other).isSome := by
  unfold CalendarStore.getProof CalendarStore.putProof at *
  dsimp only
  by_cases hkey : Hex.encode other.val = Hex.encode digest.val
  · rw [hkey, SortedMap.get_insert_self]
    rfl
  · rw [SortedMap.get_insert_of_ne _ _ hkey]
    rcases h with rfl | h
    · exact absurd rfl hkey
    · exact h

theorem getProof_putProofs {proofs : List (Bytes32 × Bytes)} {store : CalendarStore}
    {digest : Bytes32}
    (h : digest ∈ proofs.map Prod.fst ∨ (store.getProof digest).isSome) :
    ((proofs.foldl (fun store entry => store.putProof entry.1 entry.2) store).getProof
      digest).isSome := by
  induction proofs generalizing store with
  | nil => simpa using h
  | cons entry rest ih =>
    rw [List.foldl_cons]
    refine ih ?_
    rcases h with hmem | hstored
    · rcases List.mem_cons.mp hmem with rfl | hrest
      · exact .inr (getProof_putProof (.inl rfl))
      · exact .inl hrest
    · exact .inr (getProof_putProof (.inr hstored))

theorem batches_putProofs (proofs : List (Bytes32 × Bytes)) (store : CalendarStore) :
    (proofs.foldl (fun store entry => store.putProof entry.1 entry.2) store).batches =
      store.batches := by
  induction proofs generalizing store with
  | nil => rfl
  | cons entry rest ih => rw [List.foldl_cons, ih]; rfl

section

variable [Digests] [OtsCodec]

theorem confirmedProofs_digests {pending : PendingAnchor} {merkleRoot : Bytes} {height : UInt32}
    {block : Block} {tx : Transaction} {proofs : List (Bytes32 × Bytes)}
    (h : confirmedProofs pending merkleRoot height block tx = .ok proofs) :
    proofs.map Prod.fst = pending.batch := by
  have hall : ∀ (entries : List (Bytes32 × Nat)) (proofs : List (Bytes32 × Bytes)),
      (entries.mapM fun entry => do
        let proof ← Result.context
          (bitcoinConfirmedProofBytes entry.1.val merkleRoot (pending.batch.map Subtype.val) entry.2
            tx block height)
          s!"failed to build confirmed proof for {Hex.encode entry.1.val}"
        .ok (entry.1, proof)) = .ok proofs →
      proofs.map Prod.fst = entries.map Prod.fst := by
    intro entries
    induction entries with
    | nil =>
      rintro proofs ⟨⟩
      rfl
    | cons entry rest ih =>
      intro proofs h
      rw [List.mapM_cons] at h
      obtain ⟨first, hfirst, h⟩ := bind_eq_ok.mp h
      obtain ⟨others, hothers, h⟩ := bind_eq_ok.mp h
      obtain ⟨proof, -, hfirst⟩ := bind_eq_ok.mp hfirst
      cases hfirst
      cases h
      simp [ih others hothers]
  rw [hall _ _ h]
  simp

/-- A finalized anchor leaves proofs of its digests. -/
theorem finalizeAnchor_keeps {H : CalendarState → Bytes32 → Prop} (hc : Container H)
    {inner finalized : CalendarInner} {pending : PendingAnchor}
    (hpending : inner.state.store.pendingAnchor = some pending) {env : SettleEnv} {height : UInt32}
    {block : Block} {tx : Transaction}
    (h : finalizeAnchor inner pending env height block tx = .ok finalized) :
    finalized.files = inner.files ∧
      ∀ digest, H inner.state digest → H finalized.state digest := by
  obtain ⟨merkleRoot, -, h⟩ := bind_eq_ok.mp h
  obtain ⟨anchoredAt, -, h⟩ := bind_eq_ok.mp h
  obtain ⟨proofs, hproofs, h⟩ := bind_eq_ok.mp h
  cases h
  refine ⟨rfl, fun digest hheld => hc.keeps hheld ?_ ?_ ?_ id⟩
  · exact fun hstored => getProof_putProofs (.inr hstored)
  · exact batches_putProofs _ _
  · intro other hother hmem
    rw [hpending] at hother
    cases hother
    refine .inr (hc.proof (getProof_putProofs (.inl ?_)))
    rwa [confirmedProofs_digests hproofs]

end

theorem restorePendingBatch_keeps {H : CalendarState → Bytes32 → Prop} (hc : Container H)
    {inner : CalendarInner} {pending : PendingAnchor}
    (hpending : inner.state.store.pendingAnchor = some pending) {digest : Bytes32}
    (h : H inner.state digest) : H (restorePendingBatch inner pending).state digest := by
  refine hc.keeps h id rfl ?_ fun hqueue => DigestQueue.mem_foldl_enqueue.mpr (.inl hqueue)
  intro other hother hmem
  rw [hpending] at hother
  cases hother
  exact .inr (hc.queue (DigestQueue.mem_foldl_enqueue.mpr (.inr (List.mem_reverse.mpr hmem))))

theorem recordAnchorSkipped_keeps {H : CalendarState → Bytes32 → Prop} (hc : Container H)
    {inner : CalendarInner} (reason : String) {digest : Bytes32} (h : H inner.state digest) :
    H (recordAnchorSkipped inner reason).state digest :=
  hc.keeps h id rfl (fun _ hpending _ => .inl hpending) id

/-- A section that is saved has its state on disk, and one that is not leaves the disk as it was. -/
theorem CalendarInner.saveThen_cases (inner : CalendarInner) (write : Result Unit) (phase : Phase) :
    (∃ files, inner.saveThen write phase = (.ok phase, { inner with files }) ∧
      loadState files = inner.state) ∨
    ∃ err, inner.saveThen write phase = (.error err, inner) := by
  cases write with
  | ok _ => exact .inl ⟨_, rfl, rfl⟩
  | error err => exact .inr ⟨_, rfl⟩

/-! ### The invariant of a run -/

/-- The accepted digests are held in memory and on disk, but for those that the phase keeps itself;
a snapshot that is not yet installed holds those that were submitted before it was read, and the
store knows of a batch that is drained. -/
structure Tracks (H : CalendarState → Bytes32 → Prop) (F : Phase → Bytes32 → Prop)
    (D : CalendarStore → List Bytes32 → Bytes → Prop) (s : System) : Prop where
  memory : ∀ d ∈ s.accepted, H s.inner.state d ∨ F s.phase d
  disk : ∀ d ∈ s.accepted, H (loadState s.inner.files) d ∨ F s.phase d
  snapshot : ∀ snapshot, s.phase = .loaded snapshot → ∀ d ∈ s.accepted, d ∈ s.recent ∨ H snapshot d
  drained : ∀ now batch merkleRoot, s.phase = .drained now batch merkleRoot →
    D s.inner.state.store batch merkleRoot

/-- The section reads no snapshot and drains no batch. -/
def EndsPlain : Result Phase → Prop
  | .ok (.loaded _) | .ok (.drained ..) => False
  | _ => True

section

variable {H : CalendarState → Bytes32 → Prop} {F : Phase → Bytes32 → Prop}
  {D : CalendarStore → List Bytes32 → Bytes → Prop} {s : System}

/-- The phase keeps no digest itself. -/
def Quiet (F : Phase → Bytes32 → Prop) (phase : Phase) : Prop := ∀ d, ¬F phase d

theorem Tracks.start (calendarDir uri : String) (files : CalendarFiles) :
    Tracks H F D (System.start calendarDir uri files) :=
  ⟨nofun, nofun, nofun, nofun⟩

theorem Tracks.held (h : Tracks H F D s) (hquiet : Quiet F s.phase) :
    (∀ d ∈ s.accepted, H s.inner.state d) ∧ ∀ d ∈ s.accepted, H (loadState s.inner.files) d :=
  ⟨fun d hd => (h.memory d hd).resolve_right (hquiet d),
    fun d hd => (h.disk d hd).resolve_right (hquiet d)⟩

/-- A section that ends without a save. -/
theorem Tracks.next (hdisk : ∀ d ∈ s.accepted, H (loadState s.inner.files) d)
    (inner : CalendarInner) (hfiles : inner.files = s.inner.files)
    (hmemory : ∀ d ∈ s.accepted, H inner.state d) (result : Result Phase)
    (hplain : EndsPlain result) : Tracks H F D (s.next (result, inner)) := by
  refine ⟨fun d hd => .inl (hmemory d hd), fun d hd => .inl ?_, ?_, ?_⟩
  · show H (loadState inner.files) d
    rw [hfiles]
    exact hdisk d hd
  · intro snapshot hloaded
    cases result with
    | ok phase =>
      obtain rfl : phase = .loaded snapshot := hloaded
      exact hplain.elim
    | error err => cases hloaded
  · intro now batch merkleRoot hdrained
    cases result with
    | ok phase =>
      obtain rfl : phase = .drained now batch merkleRoot := hdrained
      exact hplain.elim
    | error err => cases hdrained

/-- A section that ends with a save. -/
theorem Tracks.next_saveThen (hdisk : ∀ d ∈ s.accepted, H (loadState s.inner.files) d)
    (inner : CalendarInner) (hfiles : inner.files = s.inner.files)
    (hmemory : ∀ d ∈ s.accepted, H inner.state d) (write : Result Unit) {phase : Phase}
    (hplain : EndsPlain (.ok phase)) : Tracks H F D (s.next (inner.saveThen write phase)) := by
  rcases inner.saveThen_cases write phase with ⟨files, hsaved, hload⟩ | ⟨err, hfailed⟩
  · rw [hsaved]
    refine ⟨fun d hd => .inl (hmemory d hd), fun d hd => .inl ?_, ?_, ?_⟩
    · show H (loadState files) d
      rw [hload]
      exact hmemory d hd
    · intro snapshot hloaded
      obtain rfl : phase = .loaded snapshot := hloaded
      exact hplain.elim
    · intro now batch merkleRoot hdrained
      obtain rfl : phase = .drained now batch merkleRoot := hdrained
      exact hplain.elim
  · rw [hfailed]
    exact Tracks.next hdisk inner hfiles hmemory _ trivial

variable [Digests] [OtsCodec]

omit [Digests] in
/-- A submission is held in memory and on disk, when the proof that answers it is. -/
theorem Tracks.submit (hc : Container H) (h : Tracks H F D s) {digest : Bytes} {write : Result Unit}
    (hproof : ∀ d, toArray32 digest = some d → (s.inner.state.store.getProof d).isSome →
      H (loadState s.inner.files) d) : Tracks H F D (s.submit digest write) := by
  unfold System.submit submitDigest
  cases harray : toArray32 digest with
  | none => exact h
  | some digest =>
    dsimp only
    cases hstored : s.inner.state.store.getProof digest with
    | some proof =>
      have hsome : (s.inner.state.store.getProof digest).isSome := by rw [hstored]; rfl
      refine ⟨?_, ?_, ?_, h.drained⟩
      · intro d hd
        rcases List.mem_cons.mp hd with rfl | hd
        · exact .inl (hc.proof hsome)
        · exact h.memory d hd
      · intro d hd
        rcases List.mem_cons.mp hd with rfl | hd
        · exact .inl (hproof d harray hsome)
        · exact h.disk d hd
      · intro snapshot hloaded d hd
        rcases List.mem_cons.mp hd with rfl | hd
        · exact .inl (List.mem_cons_self)
        · exact (h.snapshot snapshot hloaded d hd).imp_left (List.mem_cons_of_mem _)
    | none =>
      -- the queue grows in memory, and the snapshot follows when it is written
      have hkeep : ∀ d, H s.inner.state d →
          H { s.inner.state with queue := s.inner.state.queue.enqueue digest } d := fun d hd =>
        hc.keeps hd id rfl (fun _ hpending _ => .inl hpending)
          fun hqueue => DigestQueue.mem_enqueue.mpr (.inl hqueue)
      have hnew : H { s.inner.state with queue := s.inner.state.queue.enqueue digest } digest :=
        hc.queue (DigestQueue.mem_enqueue.mpr (.inr rfl))
      cases write with
      | error err =>
        exact ⟨fun d hd => (h.memory d hd).imp_left (hkeep d), h.disk, h.snapshot, h.drained⟩
      | ok _ =>
        have hmemory : ∀ d ∈ digest :: s.accepted,
            H { s.inner.state with queue := s.inner.state.queue.enqueue digest } d ∨
              F s.phase d := by
          intro d hd
          rcases List.mem_cons.mp hd with rfl | hd
          · exact .inl hnew
          · exact (h.memory d hd).imp_left (hkeep d)
        dsimp only [saveState, Result.context]
        cases pendingProofBytes digest.val s.inner.uri with
        | error err =>
          exact ⟨fun d hd => hmemory d (List.mem_cons_of_mem _ hd),
            fun d hd => hmemory d (List.mem_cons_of_mem _ hd), h.snapshot, h.drained⟩
        | ok proof =>
          refine ⟨hmemory, hmemory, ?_, h.drained⟩
          intro snapshot hloaded d hd
          rcases List.mem_cons.mp hd with rfl | hd
          · exact .inl List.mem_cons_self
          · exact (h.snapshot snapshot hloaded d hd).imp_left (List.mem_cons_of_mem _)

/-- The condition on the sections that do not touch the batches. -/
def Fresh (H : CalendarState → Bytes32 → Prop) (s : System) : Action → Prop
  | .submit digest _ => ∀ d, toArray32 digest = some d → (s.inner.state.store.getProof d).isSome →
      H (loadState s.inner.files) d
  | .install => ∀ snapshot, s.phase = .loaded snapshot → ∀ d ∈ s.recent, H snapshot d
  | _ => True

/-- The sections that do not touch the batches. -/
def Action.Plain : Action → Prop
  | .drain _ | .broadcast _ | .restart => False
  | _ => True

/-- The sections that do not touch the batches keep the accepted digests. -/
theorem Tracks.plain (hc : Container H)
    (hF : ∀ phase d, F phase d → ∃ now batch merkleRoot, phase = .drained now batch merkleRoot)
    {config : AnchorConfig} (h : Tracks H F D s) {action : Action} (hplain : action.Plain)
    (hfresh : Fresh H s action) : Tracks H F D (s.step config action) := by
  have hquiet : ∀ {phase}, (∀ now batch merkleRoot, phase ≠ .drained now batch merkleRoot) →
      Quiet F phase := fun hphase d hd =>
    have ⟨now, batch, merkleRoot, heq⟩ := hF _ d hd
    hphase now batch merkleRoot heq
  cases action with
  | drain env => cases hplain
  | broadcast env => cases hplain
  | restart => cases hplain
  | submit digest write =>
    have hsubmit : Tracks H F D (s.submit digest write) := h.submit hc hfresh
    unfold System.step
    exact hsubmit
  | load read =>
    cases hphase : s.phase with
    | idle =>
      have ⟨hmemory, hdisk⟩ := h.held (by rw [hphase]; exact hquiet nofun)
      simp only [System.step, hphase]
      cases read with
      | error err =>
        have hnext : Tracks H F D (s.next (.error err, s.inner)) :=
          Tracks.next hdisk s.inner rfl hmemory _ trivial
        exact ⟨hnext.memory, hnext.disk, nofun, nofun⟩
      | ok _ =>
        refine ⟨fun d hd => .inl (hmemory d hd), fun d hd => .inl (hdisk d hd), ?_, nofun⟩
        rintro snapshot ⟨⟩ d hd
        exact .inr (hdisk d hd)
    | _ => simpa [System.step, hphase] using h
  | install =>
    cases hphase : s.phase with
    | loaded snapshot =>
      obtain ⟨-, hdisk⟩ := h.held (by rw [hphase]; exact hquiet nofun)
      simp only [System.step, hphase]
      refine Tracks.next hdisk (installSection s.inner snapshot) rfl (fun d hd => ?_) _ trivial
      rcases h.snapshot snapshot hphase d hd with hrecent | hheld
      · exact hfresh snapshot hphase d hrecent
      · exact hheld
    | _ => simpa [System.step, hphase] using h
  | settle env =>
    cases hphase : s.phase with
    | installed =>
      have ⟨hmemory, hdisk⟩ := h.held (by rw [hphase]; exact hquiet nofun)
      simp only [System.step, hphase, settleSection]
      split
      · exact Tracks.next hdisk s.inner rfl hmemory _ trivial
      rename_i pending hpending
      split
      · exact Tracks.next hdisk s.inner rfl hmemory _ trivial
      · split
        · exact Tracks.next hdisk s.inner rfl hmemory _ trivial
        · rename_i finalized hfinal
          obtain ⟨hfiles, hkeeps⟩ := finalizeAnchor_keeps hc hpending hfinal
          exact Tracks.next_saveThen hdisk finalized hfiles (fun d hd => hkeeps d (hmemory d hd)) _ trivial
      · split
        · exact Tracks.next_saveThen hdisk (restorePendingBatch s.inner pending) rfl
            (fun d hd => restorePendingBatch_keeps hc hpending (hmemory d hd)) _ trivial
        · exact Tracks.next hdisk s.inner rfl hmemory _ trivial
    | _ => simpa [System.step, hphase] using h
  | fund env =>
    cases hphase : s.phase with
    | settled =>
      have ⟨hmemory, hdisk⟩ := h.held (by rw [hphase]; exact hquiet nofun)
      simp only [System.step, hphase, fundSection]
      split
      · exact Tracks.next hdisk s.inner rfl hmemory _ trivial
      split
      · exact Tracks.next hdisk s.inner rfl hmemory _ trivial
      split
      · exact Tracks.next hdisk s.inner rfl hmemory _ trivial
      split
      · rename_i reason hreason
        exact Tracks.next_saveThen hdisk (recordAnchorSkipped s.inner reason) rfl
          (fun d hd => recordAnchorSkipped_keeps hc reason (hmemory d hd)) _ trivial
      split
      · exact Tracks.next hdisk s.inner rfl hmemory _ trivial
      · exact Tracks.next hdisk s.inner rfl hmemory _ trivial
    | _ => simpa [System.step, hphase] using h

end

/-! ### What a drain leaves -/

theorem mem_drained {config : AnchorConfig} {env : DrainEnv} {queue : DigestQueue} {d : Bytes32}
    (h : d ∈ queue.pending) :
    d ∈ (drained config env queue).1 ∨ d ∈ (drained config env queue).2.pending := by
  unfold drained
  split
  · split
    · exact DigestQueue.mem_drainBatchPrioritized h
    · exact DigestQueue.mem_drainBatch h
  · exact DigestQueue.mem_drainBatch h

theorem otsMerkleRoot_isSome [Digests] {leaves : List Bytes} (h : leaves.isEmpty = false) :
    ∃ merkleRoot, otsMerkleRoot leaves = some merkleRoot := by
  rw [otsMerkleRoot, h, otsRootLoop_eq]
  cases leaves with
  | nil => cases h
  | cons first rest =>
    exact ⟨_, Merkle.climb_path catSha256d (List.getElem?_cons_zero)⟩

/-- A drain takes nothing, or files the batch that it takes. -/
theorem drainSection_cases [Digests] (inner : CalendarInner) (config : AnchorConfig)
    (env : DrainEnv) (now : Nat) :
    (∃ queue, drainSection inner config env now =
        (.ok .idle, { inner with state := { inner.state with queue } }) ∧
      ∀ d ∈ inner.state.queue.pending, d ∈ queue.pending) ∨
    ∃ batch queue merkleRoot, inner.state.store.pendingAnchor = none ∧
      drained config env inner.state.queue = (batch, queue) ∧
      otsMerkleRoot (batch.map Subtype.val) = some merkleRoot ∧
      drainSection inner config env now =
        (fileBatch inner queue batch merkleRoot).saveThen env.write
          (.drained now batch merkleRoot) := by
  unfold drainSection
  split
  · exact .inl ⟨inner.state.queue, rfl, fun d hd => hd⟩
  rename_i hfree
  have hnone : inner.state.store.pendingAnchor = none := by
    cases hpending : inner.state.store.pendingAnchor with
    | none => rfl
    | some pending => simp [hpending] at hfree
  rcases hdrained : drained config env inner.state.queue with ⟨batch, queue⟩
  dsimp only
  split
  · rename_i hempty
    refine .inl ⟨queue, rfl, fun d hd => ?_⟩
    have hmem : d ∈ batch ∨ d ∈ queue.pending := by
      have := @mem_drained config env inner.state.queue d hd
      rwa [hdrained] at this
    rw [List.isEmpty_iff.mp hempty] at hmem
    exact hmem.resolve_left (List.not_mem_nil)
  · rename_i hne
    have hleaves : (batch.map Subtype.val).isEmpty = false := by
      cases batch with
      | nil => exact absurd rfl hne
      | cons first rest => rfl
    obtain ⟨merkleRoot, hroot⟩ := otsMerkleRoot_isSome hleaves
    refine .inr ⟨batch, queue, merkleRoot, hnone, rfl, hroot, ?_⟩
    rw [hroot]
    rfl

end Lord.Calendar
