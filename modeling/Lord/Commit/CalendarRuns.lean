import Lord.Calendar.ProofChains
import Lord.Commit.OrderRuns

/-! Timestamps with the proofs of the embedded calendar: all of them have the empty order key, which one
root only can own. -/

namespace Lord.Commit

open Calendar Ots Runs Storage

/-! ### A directory of encoded files -/

/-- Files are encoded, and nothing has been timestamped. -/
structure Untimestamped (dir : DataDir) : Prop where
  rows : ∀ baoRoot row, dir.store.getCommitment baoRoot = some row → row.otsState = (none, none, none)
  /-- A file name has at most 255 bytes. -/
  names : ∀ baoRoot row, dir.store.getCommitment baoRoot = some row →
    (Utf8.encode row.carbonadoPath).length ≤ 255
  order : ∀ encoded, dir.store.orderRow encoded = none
  breccia : dir.breccia = none

namespace Untimestamped

variable {dir : DataDir} {baoRoot : Bytes32} {row : CommitmentMeta}

theorem otsOrderKey_eq (h : Untimestamped dir) (hrow : dir.store.getCommitment baoRoot = some row) :
    row.otsOrderKey = none := by
  have hstate := h.rows baoRoot row hrow
  simp only [CommitmentMeta.otsState, Prod.mk.injEq] at hstate
  exact hstate.2.1

theorem isTimestamped_eq (h : Untimestamped dir) (hrow : dir.store.getCommitment baoRoot = some row) :
    row.isTimestamped = false := by
  simp [CommitmentMeta.isTimestamped, h.otsOrderKey_eq hrow]

theorem agree (h : Untimestamped dir) : dir.store.Agree where
  indexed baoRoot row key hrow hkey := by
    rw [h.otsOrderKey_eq hrow] at hkey
    cases hkey
  owned encoded baoRoot horder := by
    rw [h.order] at horder
    cases horder

end Untimestamped

/-! ### The writes of a timestamp -/

/-- The first append to a log. -/
theorem appendBreccia_first {path message : String} {env : BrecciaEnv} {blob : Bytes}
    (hdir : env.createDir = .ok ()) (hopen : env.openFile = .ok ()) (hheader : env.writeHeader = none)
    (happend : env.append = none) (hblob : blob.length ≤ maxBrecciaBlobLen) :
    (appendBreccia path env none false blob message).1 = .ok () := by
  simp [appendBreccia, openOrCreateBreccia, createBreccia, appendBlob, hdir, hopen, hheader, happend,
    Result.context, Nat.not_lt.mpr hblob]

/-- The writes succeed when each of them does. -/
theorem finishTimestamp_ok (dir : DataDir) {staged : Staged} {env : TimestampEnv} {store : StorageStore}
    (hcommit : commitUpgradeOrderKey dir.store staged.baoRoot staged.row.otsOrderKey staged.updated
      staged.orderKey = .ok store)
    (happend : (appendBreccia (brecciaPath dir) env.breccia dir.breccia false
      (encodeEntry staged.entry) "failed to append breccia entry").1 = .ok ())
    (hpublish : env.publish = .ok ()) :
    (finishTimestamp dir staged env).1 = .ok staged.result ∧
      (finishTimestamp dir staged env).2.store = store := by
  unfold finishTimestamp publishTimestamp
  rw [hcommit]
  dsimp only
  rcases hrun : appendBreccia (brecciaPath dir) env.breccia dir.breccia false
    (encodeEntry staged.entry) "failed to append breccia entry" with ⟨result, log⟩
  rw [hrun] at happend
  cases happend
  rw [hpublish]
  exact ⟨rfl, rfl⟩

/-! ### The calls -/

/-- A timestamp of a root with the embedded calendar in this state. -/
structure CalendarCall where
  baoRoot : Bytes32
  calendar : CalendarInner
  now : UInt64
  force : Bool
  calendarUrl : String

namespace CalendarCall

variable [OtsCodec]

/-- A file system without faults, and the answers of the calendar. -/
def env (call : CalendarCall) : TimestampEnv :=
  { exampleTimestampEnv call.now with
    calendar := some fun digest => (submitDigest call.calendar (.ok ()) digest.val).1 }

variable [Digests]

def timestamp (dir : DataDir) (call : CalendarCall) : Outcome TimestampResult × DataDir :=
  timestampCommitment dir (Hex.encode call.baoRoot.val) ⟨false, call.force, call.calendarUrl⟩ call.env

def exec (dir : DataDir) (call : CalendarCall) : DataDir := (timestamp dir call).2

def Succeeds (dir : DataDir) (call : CalendarCall) : Prop :=
  ∃ result, (timestamp dir call).1 = .ok result

variable [LawfulOtsCodec] {dir : DataDir} {call : CalendarCall} {row : CommitmentMeta}

/-- The call submits the empty order key for its root. -/
theorem submits (hrow : dir.store.getCommitment call.baoRoot = some row)
    (hunstamped : row.isTimestamped = false) (hcalendar : Readies call.calendar) :
    Submits dir (Hex.encode call.baoRoot.val) ⟨false, call.force, call.calendarUrl⟩ call.env
      call.baoRoot [] := by
  obtain ⟨proof, hproof, hkey⟩ := submitDigest_orderKey hcalendar (commitmentDigest32 call.baoRoot)
  refine ⟨parseBaoRoot_encode _, ⟨row, hrow, .inl hunstamped⟩, ⟨proof, ?_, hkey⟩, ⟨call.now, rfl⟩,
    rfl, rfl⟩
  rw [obtainProof, if_neg (by simp)]
  exact Result.context_eq_ok.mpr hproof

/-- The first call succeeds, and its root owns the empty order key. -/
theorem first (h : Untimestamped dir) (hrow : dir.store.getCommitment call.baoRoot = some row)
    (hcalendar : Readies call.calendar) :
    Succeeds dir call ∧ (exec dir call).store.Agree ∧
      (exec dir call).store.orderKeyOf call.baoRoot = some [] ∧
      (exec dir call).store.orderRow [0] = some call.baoRoot ∧
      ∀ r ≠ call.baoRoot, (exec dir call).store.getCommitment r = dir.store.getCommitment r := by
  have hsubmits := submits hrow (h.isTimestamped_eq hrow) hcalendar
  have hrun := timestampCommitment_run dir (Hex.encode call.baoRoot.val)
    ⟨false, call.force, call.calendarUrl⟩ call.env
  rw [Succeeds, exec, timestamp]
  cases hout : timestampCommitment dir (Hex.encode call.baoRoot.val)
    ⟨false, call.force, call.calendarUrl⟩ call.env with
  | mk outcome dir' =>
  rw [hout] at hrun
  cases hrun with
  | rejected fault hnot => exact absurd hsubmits (hnot _ _)
  | repaired baoRoot row' hnot => exact absurd hsubmits (hnot _ _)
  | written staged pending hsubmits' hhex hrow' hproof hkey hnow =>
    obtain ⟨hroot, horder⟩ := (hsubmits' _ _).mp hsubmits
    rw [hroot]
    have hnone := h.otsOrderKey_eq hrow'
    have hupdated := staged.updated_baoRoot hrow'
    have hencode : encodeOrderKeyForLmdb staged.orderKey = .ok [0] := by
      rw [← horder]
      rfl
    have hkeyOf : dir.store.orderKeyOf staged.baoRoot = staged.row.otsOrderKey := by
      simp [StorageStore.orderKeyOf, hrow']
    -- No root owns a key, so the transaction commits.
    obtain ⟨store, hcommit⟩ := (commitUpgradeOrderKey_iff staged.baoRoot staged.updated staged.orderKey
      h.agree).mpr ⟨[0], hencode, fun owner howner => by rw [h.order] at howner; cases howner⟩
    rw [hkeyOf] at hcommit
    obtain ⟨encoded, hencoded, hcommitted⟩ := commitUpgradeOrderKey_ok hcommit
    rw [hencode] at hencoded
    cases hencoded
    have hlength : (encodeEntry staged.entry).length ≤ maxBrecciaBlobLen := by
      have hname := h.names staged.baoRoot staged.row hrow'
      simp only [encodeEntry, encodeFields, Staged.entry, ← horder, Bincode.writeVec, Bincode.writeString,
        List.length_append, LittleEndian.length_encode, staged.baoRoot.property, List.length_nil,
        maxBrecciaBlobLen]
      omega
    have happend : (appendBreccia (brecciaPath { dir with pendingOts := pending }) call.env.breccia
        ({ dir with pendingOts := pending } : DataDir).breccia false (encodeEntry staged.entry)
        "failed to append breccia entry").1 = .ok () := by
      rw [h.breccia]
      exact appendBreccia_first rfl rfl rfl rfl hlength
    have hpublish : call.env.publish = .ok () := rfl
    obtain ⟨hok, hstore⟩ := finishTimestamp_ok { dir with pendingOts := pending } hcommit happend hpublish
    rw [hstore]
    refine ⟨⟨staged.result, by rw [hok]; rfl⟩,
      commitUpgradeOrderKey_agree h.agree hrow' hupdated staged.updated_otsOrderKey hcommit, ?_, ?_, ?_⟩
    · rw [StorageStore.orderKeyOf, hcommitted.getCommitment_eq, if_pos hupdated]
      exact congrArg some horder.symm
    · rw [hcommitted.orderRow_eq, Function.update_self]
    · intro r hr
      rw [hcommitted.getCommitment_eq, hupdated, if_neg (Ne.symm hr)]

/-- A call of another root fails behind the first one. -/
theorem second (h : dir.store.Agree) (hrow : dir.store.getCommitment call.baoRoot = some row)
    (hunstamped : row.isTimestamped = false) (hcalendar : Readies call.calendar) {owner : Bytes32}
    (howner : dir.store.orderRow [0] = some owner) (hne : owner ≠ call.baoRoot) :
    ¬Succeeds dir call := by
  have hhits : HitsOwnedKey dir (Hex.encode call.baoRoot.val) ⟨false, call.force, call.calendarUrl⟩
      call.env :=
    ⟨call.baoRoot, [], submits hrow hunstamped hcalendar, [0], owner, rfl, howner, hne⟩
  rintro ⟨result, hok⟩
  rcases timestampCommitment_store (Hex.encode call.baoRoot.val)
    ⟨false, call.force, call.calendarUrl⟩ call.env h with ⟨-, ⟨err, herr⟩, -⟩ | ⟨hnot, -⟩
  · rw [timestamp, herr] at hok
    cases hok
  · exact hnot hhits

end CalendarCall

/-! ### Runs of calls -/

section

open CalendarCall

variable [Digests] [OtsCodec]

/-- Every call of the run returns `Ok`, and the listing behind it shows each of their roots exactly once. -/
def AllTimestamped (dir : DataDir) (calls : List CalendarCall) : Prop :=
  EachStep exec Succeeds dir calls ∧
    ∃ entries, listCommitments (run exec dir calls).store = .ok entries ∧ ∀ call ∈ calls,
      (entries.map CommitmentListEntry.baoRoot).count (Hex.encode call.baoRoot.val) = 1

/-- Distinct encoded roots are all timestamped with the calendar's proofs exactly when there is at most
one of them. -/
theorem allTimestamped_iff [LawfulOtsCodec] {dir : DataDir} {calls : List CalendarCall}
    (hdir : Untimestamped dir)
    (hencoded : ∀ call ∈ calls, (dir.store.getCommitment call.baoRoot).isSome)
    (hdistinct : (calls.map CalendarCall.baoRoot).Nodup)
    (hcalendar : ∀ call ∈ calls, Readies call.calendar) :
    AllTimestamped dir calls ↔ calls.length ≤ 1 := by
  cases calls with
  | nil =>
    obtain ⟨entries, hlist, -⟩ := listsAll_of_agree hdir.agree
    exact iff_of_true ⟨eachStep_nil, entries, hlist, by simp⟩ (by simp)
  | cons call rest =>
    obtain ⟨row, hrow⟩ := Option.isSome_iff_exists.mp (hencoded call List.mem_cons_self)
    obtain ⟨hok, hagree, hkey, horder, hothers⟩ := first hdir hrow (hcalendar call List.mem_cons_self)
    cases rest with
    | nil =>
      refine iff_of_true ⟨eachStep_cons.mpr ⟨hok, eachStep_nil⟩, ?_⟩ (by simp)
      obtain ⟨entries, hlist, hnodup, hmem⟩ := listsAll_of_agree hagree
      refine ⟨entries, hlist, fun call' hcall' => ?_⟩
      obtain rfl := List.mem_singleton.mp hcall'
      apply List.count_eq_one_of_mem hnodup
      rw [hmem, hkey]
      rfl
    | cons next rest =>
      have hne : call.baoRoot ≠ next.baoRoot := by
        intro heq
        simp [heq] at hdistinct
      have hin : next ∈ call :: next :: rest := by simp
      obtain ⟨row', hrow'⟩ := Option.isSome_iff_exists.mp (hencoded next hin)
      refine iff_of_false ?_ (by simp)
      rintro ⟨hsteps, -⟩
      obtain ⟨-, hsteps⟩ := eachStep_cons.mp hsteps
      obtain ⟨hnext, -⟩ := eachStep_cons.mp hsteps
      refine second hagree ?_ (hdir.isTimestamped_eq hrow') (hcalendar next hin) horder hne hnext
      rw [hothers _ hne.symm, hrow']

end

/-! ### Two roots and an empty calendar -/

section

attribute [local instance] exampleCodec Format.sha256Digests Format.sha256Codec

/-- A calendar that has seen no digest. -/
def freshCalendar : CalendarInner where
  calendarDir := "calendar"
  uri := "http://127.0.0.1:14788"
  state := ⟨⟨[]⟩, .empty⟩
  files := ⟨none, none, none⟩

/-- A timestamp of this root with the fresh calendar. -/
def freshCall (baoRoot : Bytes32) : CalendarCall := ⟨baoRoot, freshCalendar, 100, false, ""⟩

/-- Two files are encoded. -/
def encodedPair : DataDir :=
  { exampleDir with
    store := (StorageStore.empty.putCommitment (.new exampleRoot "a.c12" 12 .inboard 0)).putCommitment
      (.new siblingRoot "b.c12" 12 .inboard 0) }

theorem freshCalendar_readies : Readies freshCalendar where
  uri := by decide +kernel
  stored := by
    intro digest proof h
    cases h

theorem getCommitment_encodedPair (baoRoot : Bytes32) :
    encodedPair.store.getCommitment baoRoot =
      if siblingRoot = baoRoot then some (.new siblingRoot "b.c12" 12 .inboard 0)
      else if exampleRoot = baoRoot then some (.new exampleRoot "a.c12" 12 .inboard 0)
      else none := by
  rw [encodedPair, StorageStore.getCommitment_putCommitment, StorageStore.getCommitment_putCommitment]
  rfl

theorem encodedPair_untimestamped : Untimestamped encodedPair where
  rows := by
    intro baoRoot row hrow
    rw [getCommitment_encodedPair] at hrow
    split at hrow
    · cases hrow
      rfl
    · split at hrow
      · cases hrow
        rfl
      · cases hrow
  names := by
    intro baoRoot row hrow
    rw [getCommitment_encodedPair] at hrow
    split at hrow
    · cases hrow
      decide
    · split at hrow
      · cases hrow
        decide
      · cases hrow
  order _ := rfl
  breccia := rfl

theorem allTimestamped_one :
    AllTimestamped encodedPair [freshCall exampleRoot] ↔ [freshCall exampleRoot].length ≤ 1 := by
  have := Format.codec_lawful
  refine allTimestamped_iff encodedPair_untimestamped ?_ (by simp) ?_
  · intro call hcall
    obtain rfl := List.mem_singleton.mp hcall
    decide +kernel
  · intro call hcall
    obtain rfl := List.mem_singleton.mp hcall
    exact freshCalendar_readies

/-- The second of two encoded roots is turned away: the first one owns the empty order key. -/
theorem not_allTimestamped_two :
    Untimestamped encodedPair ∧
      ([freshCall exampleRoot, freshCall siblingRoot].map CalendarCall.baoRoot).Nodup ∧
      (CalendarCall.timestamp (CalendarCall.exec encodedPair (freshCall exampleRoot))
          (freshCall siblingRoot)).1 =
        .error (.err s!"COMMITMENT_ORDER key  already maps to {Hex.encode exampleRoot.val}") ∧
      ¬AllTimestamped encodedPair [freshCall exampleRoot, freshCall siblingRoot] := by
  have hfails : (CalendarCall.timestamp (CalendarCall.exec encodedPair (freshCall exampleRoot))
      (freshCall siblingRoot)).1 =
        .error (.err s!"COMMITMENT_ORDER key  already maps to {Hex.encode exampleRoot.val}") := by
    decide +kernel
  refine ⟨encodedPair_untimestamped, by decide, hfails, ?_⟩
  rintro ⟨hsteps, -⟩
  obtain ⟨-, hsteps⟩ := eachStep_cons.mp hsteps
  obtain ⟨⟨result, hok⟩, -⟩ := eachStep_cons.mp hsteps
  rw [hfails] at hok
  cases hok

end

end Lord.Commit
