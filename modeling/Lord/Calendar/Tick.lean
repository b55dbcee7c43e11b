import Lord.Calendar.AnchorPayment
import Lord.Calendar.FailedAnchors
import Lord.Calendar.HeldDigests
import Lord.Ltp.Mempool

/-! A whole tick of the anchor worker: what it takes from the mempool and from the wallet, and what it
leaves of the accepted digests. -/

namespace Lord.Calendar

open Ots Bitcoin Runs Ltp

/-! ### The mempool -/

/-- A drain beside this mempool, or one that does not open. -/
def drainEnv (mempool : Result LtpMempool) (write : Result Unit) : DrainEnv :=
  ⟨mempool.map LtpMempool.commitmentStartDigests, write⟩

theorem length_queuedOf_le (pending priority : List Bytes32) :
    (DigestQueue.queuedOf pending priority).length ≤ pending.length := by
  refine (List.subperm_of_subset (DigestQueue.nodup_eraseDups _) fun digest hmem => ?_).length_le
  rw [List.mem_eraseDups, List.mem_filter] at hmem
  simpa using hmem.2

/-- With room for the whole queue a drain prefers just the digests that also stand in the commitment
queue of the mempool. -/
theorem mem_preferredOf_mempool {config : AnchorConfig} (hltp : config.ltpPriority = true)
    {pending : List Bytes32} (hroom : pending.length ≤ config.batchMax) (mempool : LtpMempool)
    (write : Result Unit) {digest : Bytes32} :
    digest ∈ preferredOf config (drainEnv (.ok mempool) write) pending ↔
      digest ∈ pending ∧ ∃ entry ∈ mempool.snapshot.commitment, entry.startDigest = digest := by
  have hfits := Nat.le_trans (length_queuedOf_le pending mempool.commitmentStartDigests) hroom
  have hpreferred : preferredOf config (drainEnv (.ok mempool) write) pending =
      DigestQueue.queuedOf pending mempool.commitmentStartDigests := by
    rw [preferredOf, if_pos hltp]
    exact List.take_of_length_le hfits
  rw [hpreferred, DigestQueue.queuedOf, List.mem_eraseDups, List.mem_filter, decide_eq_true_eq,
    mempool.commitmentStartDigests_perm.mem_iff, List.mem_map, and_comm]

/-! ### The wallet -/

/-- The wallet sent a transaction with this id, which it signed for the anchor of this merkle root. -/
def Sent (rpc : AnchorRpc) (fee : Nat) (merkleRoot : Bytes) (txid : String) : Prop :=
  ∃ utxo unsigned signed tx, unsignedAnchor rpc fee merkleRoot = .ok (utxo, unsigned) ∧
    rpc.sign unsigned = .ok signed ∧ signed.complete = true ∧ signed.transaction = .ok tx ∧
    (∃ out ∈ tx.output, isOpReturn out.scriptPubkey = true) ∧ rpc.send tx = .ok txid

theorem broadcastAnchor_eq_ok {rpc : AnchorRpc} {fee : Nat} {merkleRoot : Bytes} {txid : String} :
    broadcastAnchor rpc fee merkleRoot = .ok txid ↔ Sent rpc fee merkleRoot txid := by
  constructor
  · intro h
    obtain ⟨⟨utxo, unsigned⟩, hunsigned, h⟩ := bind_eq_ok.mp h
    obtain ⟨signed, hsigned, h⟩ := bind_eq_ok.mp h
    split at h
    · cases h
    · rename_i hcomplete
      obtain ⟨tx, htx, h⟩ := bind_eq_ok.mp h
      split at h
      · cases h
      · rename_i hdata
        rw [Result.context_eq_ok] at hsigned htx h
        exact ⟨utxo, unsigned, signed, tx, hunsigned, hsigned, by simpa using hcomplete, htx,
          by simpa using hdata, h⟩
  · rintro ⟨utxo, unsigned, signed, tx, hunsigned, hsigned, hcomplete, htx, hdata, hsend⟩
    refine bind_eq_ok.mpr ⟨_, hunsigned, bind_eq_ok.mpr ⟨_, Result.context_eq_ok.mpr hsigned, ?_⟩⟩
    rw [if_neg (by simp [hcomplete])]
    refine bind_eq_ok.mpr ⟨_, Result.context_eq_ok.mpr htx, ?_⟩
    rw [if_neg (by simpa using hdata)]
    exact Result.context_eq_ok.mpr hsend

/-- A broadcast through this wallet. -/
def broadcastEnv (rpc : AnchorRpc) (fee : Nat) (merkleRoot : Bytes) (broadcastAt : UInt64)
    (write : Result Unit) : BroadcastEnv :=
  ⟨broadcastAnchor rpc fee merkleRoot, .ok broadcastAt, write⟩

/-- Behind a broadcast the batch waits for the transaction that the wallet sent, or none was sent and
it is back in the queue. -/
theorem broadcastSection_wallet (inner : CalendarInner) (lastTx : Nat) (rpc : AnchorRpc) (fee : Nat)
    (broadcastAt : UInt64) (write : Result Unit) (now : Nat) (batch : List Bytes32)
    (merkleRoot : Bytes) :
    let ended := broadcastSection inner lastTx (broadcastEnv rpc fee merkleRoot broadcastAt write) now
      batch merkleRoot
    (∃ txid, Sent rpc fee merkleRoot txid ∧
        ended.2.1.state = (recordPendingAnchor inner batch merkleRoot txid broadcastAt).state) ∨
      (¬∃ txid, Sent rpc fee merkleRoot txid) ∧
        ended.2.1.state = (restoreDrainedBatch inner batch merkleRoot).state := by
  simp only [← broadcastAnchor_eq_ok, broadcastSection, broadcastEnv]
  cases hbroadcast : broadcastAnchor rpc fee merkleRoot with
  | error err => exact .inr ⟨by simp, rfl⟩
  | ok txid => exact .inl ⟨txid, rfl, rfl⟩

/-! ### The tick -/

/-- What ends in such a phase, or ends the tick. -/
def EndsIn (P : Phase → Prop) (ended : Result Phase) : Prop :=
  ∀ phase, ended = .ok phase → phase = .idle ∨ P phase

theorem endsIn_error (P : Phase → Prop) (err : Error) : EndsIn P (.error err) := by
  rintro phase ⟨⟩

theorem endsIn_ok {P : Phase → Prop} {phase : Phase} (h : phase = .idle ∨ P phase) :
    EndsIn P (.ok phase) := by
  rintro _ ⟨⟩
  exact h

theorem endsIn_saveThen {P : Phase → Prop} {phase : Phase} (inner : CalendarInner)
    (write : Result Unit) (h : phase = .idle ∨ P phase) : EndsIn P (inner.saveThen write phase).1 := by
  rcases inner.saveThen_cases write phase with ⟨files, hsaved, -⟩ | ⟨err, hsaved⟩
  · rw [hsaved]
    exact endsIn_ok h
  · rw [hsaved]
    exact endsIn_error P err

theorem fundSection_ends (inner : CalendarInner) (config : AnchorConfig) (lastTx : Nat) (env : FundEnv) :
    EndsIn (· = .funded env.now) (fundSection inner config lastTx env).1 := by
  unfold fundSection
  split
  · exact endsIn_ok (.inl rfl)
  split
  · exact endsIn_error _ _
  cases anchorFeeSats config env with
  | error err => exact endsIn_error _ _
  | ok fee =>
    dsimp only
    cases skippedReason config env fee with
    | some reason => exact endsIn_saveThen _ _ (.inl rfl)
    | none =>
      dsimp only
      cases ensureWalletFunded config env fee with
      | error err => exact endsIn_error _ _
      | ok _ => exact endsIn_ok (.inr rfl)

theorem broadcastSection_ends (inner : CalendarInner) (lastTx : Nat) (env : BroadcastEnv) (now : Nat)
    (batch : List Bytes32) (merkleRoot : Bytes) :
    EndsIn (fun _ => False) (broadcastSection inner lastTx env now batch merkleRoot).1 := by
  unfold broadcastSection
  cases env.broadcast with
  | error err =>
    intro phase heq
    obtain ⟨_, -, h⟩ := bind_eq_ok.mp heq
    cases h
  | ok txid =>
    dsimp only
    cases env.broadcastAt.context "system time before unix epoch" with
    | error err => exact endsIn_error _ _
    | ok broadcastAt => exact endsIn_saveThen _ _ (.inl rfl)

theorem next_phase {s : System} {ended : Result Phase × CalendarInner} {P : Phase → Prop}
    (h : EndsIn P ended.1) : (s.next ended).phase = .idle ∨ P (s.next ended).phase := by
  unfold System.next
  split
  · rename_i hended
    exact h _ hended
  · exact .inl rfl

variable [Digests] [OtsCodec] {config : AnchorConfig} {s : System}

omit [OtsCodec] in
theorem drainSection_ends (inner : CalendarInner) (env : DrainEnv) (now : Nat) :
    EndsIn (fun phase => ∃ batch merkleRoot, phase = .drained now batch merkleRoot)
      (drainSection inner config env now).1 := by
  rcases drainSection_cases inner config env now with
    ⟨queue, hended, -⟩ | ⟨batch, queue, merkleRoot, -, -, -, hended⟩
  · rw [hended]
    exact endsIn_ok (.inl rfl)
  · rw [hended]
    exact endsIn_saveThen _ _ (.inr ⟨batch, merkleRoot, rfl⟩)

theorem settleSection_ends (inner : CalendarInner) (env : SettleEnv) :
    EndsIn (· = .settled) (settleSection inner config env).1 := by
  unfold settleSection
  cases inner.state.store.pendingAnchor with
  | none => exact endsIn_ok (.inr rfl)
  | some pending =>
    dsimp only
    cases env.findConfirmedTx pending.txid with
    | error err => exact endsIn_error _ _
    | ok found =>
      cases found with
      | none =>
        dsimp only
        split
        · exact endsIn_saveThen _ _ (.inr rfl)
        · exact endsIn_ok (.inl rfl)
      | some anchor =>
        obtain ⟨height, block, tx⟩ := anchor
        dsimp only
        cases finalizeAnchor inner pending env height block tx with
        | error err => exact endsIn_error _ _
        | ok finalized => exact endsIn_saveThen _ _ (.inl rfl)

/-- Behind the sections of a tick the worker is idle, whatever they meet. -/
theorem run_tick_idle (h : s.phase = .idle) (read : Result Unit) (settle : SettleEnv)
    (fund : FundEnv) (drain : DrainEnv) (broadcast : BroadcastEnv) :
    (run (System.step config) s [.load read, .install, .settle settle, .fund fund, .drain drain,
      .broadcast broadcast]).phase = .idle := by
  have hload : (s.step config (.load read)).phase = .idle ∨
      ∃ snapshot, (s.step config (.load read)).phase = .loaded snapshot := by
    simp only [System.step, h]
    refine next_phase (P := fun phase => ∃ snapshot, phase = .loaded snapshot) ?_
    cases read with
    | error err => exact endsIn_error _ _
    | ok _ => exact endsIn_ok (.inr ⟨_, rfl⟩)
  simp only [run, List.foldl_cons, List.foldl_nil]
  generalize s.step config (.load read) = s at hload ⊢
  have hinstall : (s.step config .install).phase = .idle ∨
      (s.step config .install).phase = .installed := by
    rcases hload with hidle | ⟨snapshot, hloaded⟩
    · simp only [System.step, hidle, true_or]
    · simp only [System.step, hloaded]
      exact .inr rfl
  generalize s.step config .install = s at hinstall ⊢
  have hsettle : (s.step config (.settle settle)).phase = .idle ∨
      (s.step config (.settle settle)).phase = .settled := by
    rcases hinstall with hidle | hinstalled
    · simp only [System.step, hidle, true_or]
    · simp only [System.step, hinstalled]
      exact next_phase (settleSection_ends _ _)
  generalize s.step config (.settle settle) = s at hsettle ⊢
  have hfund : (s.step config (.fund fund)).phase = .idle ∨
      (s.step config (.fund fund)).phase = .funded fund.now := by
    rcases hsettle with hidle | hsettled
    · simp only [System.step, hidle, true_or]
    · simp only [System.step, hsettled]
      exact next_phase (fundSection_ends _ _ _ _)
  generalize s.step config (.fund fund) = s at hfund ⊢
  have hdrain : (s.step config (.drain drain)).phase = .idle ∨ ∃ batch merkleRoot,
      (s.step config (.drain drain)).phase = .drained fund.now batch merkleRoot := by
    rcases hfund with hidle | hfunded
    · simp only [System.step, hidle, true_or]
    · simp only [System.step, hfunded]
      exact next_phase (drainSection_ends _ _ _)
  generalize s.step config (.drain drain) = s at hdrain ⊢
  rcases hdrain with hidle | ⟨batch, merkleRoot, hdrained⟩
  · simp only [System.step, hidle]
  · simp only [System.step, hdrained]
    exact (next_phase (broadcastSection_ends _ _ _ _ _ _)).resolve_right id

/-- A tick that nothing comes between keeps the accepted digests, when its drain is saved and its
broadcast is recorded or undone on disk; and behind it the worker is idle. -/
theorem Held.anchorOnce (h : Held s) (hidle : s.phase = .idle) (read : Result Unit)
    (settle : SettleEnv) (fund : FundEnv) {drain : DrainEnv} {broadcast : BroadcastEnv}
    (hdrain : drain.write.isOk)
    (hbroadcast : (broadcast.broadcast.isOk → broadcast.broadcastAt.isOk) ∧ broadcast.write.isOk) :
    Held (Calendar.anchorOnce config s read settle fund drain broadcast) ∧
      (Calendar.anchorOnce config s read settle fund drain broadcast).phase = .idle := by
  refine ⟨?_, run_tick_idle hidle read settle fund drain broadcast⟩
  have hsteps : EachStep (System.step config) (KeepsHeld config) s
      [.load read, .install, .settle settle, .fund fund, .drain drain, .broadcast broadcast] := by
    simp only [eachStep_cons]
    refine ⟨trivial, ?_, trivial, trivial, .inl hdrain, ?_, eachStep_nil⟩
    · -- no digest was accepted since the load
      intro snapshot _ d hd
      simp only [System.step, hidle] at hd
      cases hd
    · intro now batch merkleRoot _
      exact .inl hbroadcast
  exact always_of_eachStep (P := Held) (fun _ _ _ hs hkeeps => hs.step hkeeps) h hsteps _
    (List.prefix_refl _)

/-- So it is with a tick that drains beside a mempool and broadcasts through a wallet: every accepted
digest has a proof or stands in the pending anchor or in the queue. -/
theorem holds_anchorOnce (h : Held s) (hidle : s.phase = .idle) (read : Result Unit)
    (settle : SettleEnv) (fund : FundEnv) (mempool : Result LtpMempool) (rpc : AnchorRpc) (fee : Nat)
    (merkleRoot : Bytes) (broadcastAt : UInt64) :
    ∀ d ∈ (anchorOnce config s read settle fund (drainEnv mempool (.ok ()))
        (broadcastEnv rpc fee merkleRoot broadcastAt (.ok ()))).accepted,
      (anchorOnce config s read settle fund (drainEnv mempool (.ok ()))
        (broadcastEnv rpc fee merkleRoot broadcastAt (.ok ()))).inner.state.Holds d := by
  have htick : Held (anchorOnce config s read settle fund (drainEnv mempool (.ok ()))
      (broadcastEnv rpc fee merkleRoot broadcastAt (.ok ()))) ∧ _ :=
    h.anchorOnce hidle read settle fund rfl ⟨fun _ => rfl, rfl⟩
  exact (htick.1.held (by simp [htick.2])).1

end Lord.Calendar
