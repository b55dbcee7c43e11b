import Lord.Commit.Timestamp
import Lord.Lib.Runs

/-! Runs of appends to the breccia log: a log of whole frames reads back record for record, unless a
v1 record starts like the tag of a v2 one, and torn frames are survived at the end of the log, as long
as their bytes together do not fill a length field. -/

namespace Lord.Commit

open Storage Runs

/-! ### Logs that the program writes -/

def encodeRecord : BrecciaRecord → Bytes
  | .v1 entry => encodeEntry entry
  | .v2 entry => encodeEntryV2 entry

/-- The append of a record: a v2 record bumps the header first. -/
def appendRecord (path : String) (env : BrecciaEnv) (log : Option Bytes) (record : BrecciaRecord) :
    Result Unit × Option Bytes :=
  match record with
  | .v1 entry => appendBreccia path env log false (encodeEntry entry)
      "failed to append breccia entry"
  | .v2 entry => appendBreccia path env log true (encodeEntryV2 entry)
      "failed to append breccia v2 entry"

/-- The log after successful appends of these records. -/
inductive Written (path : String) : Option Bytes → List BrecciaRecord → Prop
  | empty : Written path none []
  | append {log log' : Option Bytes} {records : List BrecciaRecord} {env : BrecciaEnv}
    {record : BrecciaRecord} : Written path log records →
    appendRecord path env log record = (.ok (), log') → Written path log' (records ++ [record])

theorem openOrCreateBreccia_ok {path : String} {env : BrecciaEnv} {log : Option Bytes}
    (h : (openOrCreateBreccia path env log).1 = .ok ()) :
    openOrCreateBreccia path { env with writeHeader := none, append := none } log =
      openOrCreateBreccia path env log := by
  cases log with
  | some bytes => rfl
  | none =>
    unfold openOrCreateBreccia createBreccia at h ⊢
    cases hdir : env.createDir with
    | error err => rfl
    | ok _ =>
      cases hopen : env.openFile with
      | error err => rfl
      | ok _ =>
        cases hfault : env.writeHeader with
        | none => rfl
        | some fault =>
          simp only [hdir, hopen, hfault, Result.context, writeAll] at h
          cases h

/-- A successful append has met no fault. -/
theorem appendBreccia_ok {path : String} {env : BrecciaEnv} {log : Option Bytes} {bump : Bool}
    {blob : Bytes} {message : String} (h : (appendBreccia path env log bump blob message).1 = .ok ()) :
    appendBreccia path { env with writeHeader := none, append := none } log bump blob message =
      appendBreccia path env log bump blob message := by
  have hopen : (openOrCreateBreccia path env log).1 = .ok () := by
    rcases hrun : openOrCreateBreccia path env log with ⟨result, opened⟩
    cases result with
    | ok _ => rfl
    | error err =>
      rw [appendBreccia, hrun] at h
      cases h
  have hnone : env.append = none := by
    cases hfault : env.append with
    | none => rfl
    | some fault =>
      rw [appendBreccia] at h
      split at h
      · cases h
      dsimp only at h
      split at h
      · cases h
      dsimp only [appendBlob] at h
      split at h
      · cases h
      · simp only [hfault, writeAll, Result.context] at h
        cases h
  rw [appendBreccia, appendBreccia, openOrCreateBreccia_ok hopen]
  simp only [appendBlob, ensureV2Header, hnone]

/-- The steps of an append that fail nowhere in the file. -/
def BrecciaEnv.sound (env : BrecciaEnv) : BrecciaEnv := { env with writeHeader := none, append := none }

theorem BrecciaEnv.sound_untorn (env : BrecciaEnv) : env.sound.Untorn := ⟨nofun, nofun⟩

/-- A successful append adds its blob. -/
theorem appendBreccia_ok_holds {path : String} {env : BrecciaEnv} {log : Option Bytes}
    {blobs : List Bytes} (h : HoldsBlobs log blobs) {bump : Bool} {blob : Bytes} {message : String}
    (hok : (appendBreccia path env log bump blob message).1 = .ok ()) :
    HoldsBlobs (appendBreccia path env log bump blob message).2 (blobs ++ [blob]) := by
  have hsame := appendBreccia_ok hok
  rcases appendBreccia_holds h env.sound_untorn bump blob message with
    hadded | ⟨-, hne⟩
  · exact hsame ▸ hadded
  · exact absurd (hsame ▸ hok) hne

theorem Written.holds {path : String} {log : Option Bytes} {records : List BrecciaRecord}
    (h : Written path log records) : HoldsBlobs log (records.map encodeRecord) := by
  induction h with
  | empty => exact .inl ⟨rfl, rfl⟩
  | @append log log' records env record _ happend ih =>
    have hone : ∀ (bump : Bool) (blob : Bytes) (message : String),
        appendBreccia path env log bump blob message = (.ok (), log') →
        HoldsBlobs log' (records.map encodeRecord ++ [blob]) := by
      intro bump blob message hrun
      have hadded := appendBreccia_ok_holds ih (by rw [hrun] :
        (appendBreccia path env log bump blob message).1 = .ok ())
      rwa [hrun] at hadded
    rw [List.map_append]
    cases record with
    | v1 entry => exact hone false _ _ happend
    | v2 entry => exact hone true _ _ happend

/-- The lengths of a record's key and path, and of a v2 record's txid, fit in `u64`. -/
def BrecciaRecord.Sized : BrecciaRecord → Prop
  | .v1 entry => entry.otsOrderKey.length < 256 ^ 8 ∧
    (Utf8.encode entry.carbonadoPath).length < 256 ^ 8
  | .v2 entry => entry.otsOrderKey.length < 256 ^ 8 ∧
    (Utf8.encode entry.carbonadoPath).length < 256 ^ 8 ∧
    (Utf8.encode entry.attestationTxid).length < 256 ^ 8

/-- The blob of the record starts like a v2 blob although the record is a v1 one. -/
def BrecciaRecord.Mistagged : BrecciaRecord → Prop
  | .v1 entry => brecciaEntryV2Magic <+: entry.baoRoot.val
  | .v2 _ => False

/-- A record reads back as itself exactly when it is not mistagged. -/
theorem decodeBrecciaBlob_encodeRecord {record : BrecciaRecord} (h : record.Sized) :
    decodeBrecciaBlob (encodeRecord record) = .ok record ↔ ¬record.Mistagged := by
  cases record with
  | v2 entry =>
    obtain ⟨hkey, hpath, htxid⟩ := h
    exact iff_of_true (decodeBrecciaBlob_encodeEntryV2 hkey hpath htxid) not_false
  | v1 entry =>
    refine ⟨fun hdecode htag => ?_, fun htag => decodeBrecciaBlob_encodeEntry h.1 h.2 htag⟩
    have hbegin : brecciaEntryV2Magic <+: encodeEntry entry :=
      List.IsPrefix.trans htag (List.prefix_append _ _)
    rw [encodeRecord, decodeBrecciaBlob, if_pos hbegin] at hdecode
    obtain ⟨v2, -, hv2⟩ := bind_eq_ok.mp hdecode
    cases hv2

theorem BrecciaRecord.sized_of_length {record : BrecciaRecord}
    (h : (encodeRecord record).length ≤ maxBrecciaBlobLen) : record.Sized := by
  have hlt : (encodeRecord record).length < 256 ^ 8 := by
    simp only [maxBrecciaBlobLen] at h
    omega
  cases record with
  | v1 entry => exact length_encodeEntry_lt hlt
  | v2 entry => exact length_encodeEntryV2_lt hlt

theorem mapM_decode_iff {records : List BrecciaRecord}
    (h : ∀ record ∈ records, record.Sized) :
    (records.map encodeRecord).mapM decodeBrecciaBlob = .ok records ↔
      ∀ record ∈ records, ¬record.Mistagged := by
  induction records with
  | nil => exact iff_of_true rfl (by simp)
  | cons record rest ih =>
    have hrest := ih fun r hr => h r (List.mem_cons_of_mem _ hr)
    rw [List.map_cons, List.mapM_cons, List.forall_mem_cons, ← hrest,
      ← decodeBrecciaBlob_encodeRecord (h record (by simp))]
    constructor
    · intro hok
      obtain ⟨first, hfirst, hok⟩ := bind_eq_ok.mp hok
      obtain ⟨others, hothers, hok⟩ := bind_eq_ok.mp hok
      cases hok
      exact ⟨hfirst, hothers⟩
    · rintro ⟨hfirst, hothers⟩
      exact bind_eq_ok.mpr ⟨record, hfirst, bind_eq_ok.mpr ⟨rest, hothers, rfl⟩⟩

/-- Every record reads back as itself exactly when it is not mistagged, and so does every log that
the program writes. -/
theorem brecciaRecords_roundTrip_iff (record : BrecciaRecord) (hsized : record.Sized)
    (dir : DataDir) (records : List BrecciaRecord)
    (hwritten : Written (brecciaPath dir) dir.breccia records) :
    (decodeBrecciaBlob (encodeRecord record) = .ok record ↔ ¬record.Mistagged) ∧
      (readBrecciaRecords dir = .ok records ↔ ∀ record ∈ records, ¬record.Mistagged) := by
  refine ⟨decodeBrecciaBlob_encodeRecord hsized, ?_⟩
  have hholds := hwritten.holds
  have hsizes : ∀ record ∈ records, record.Sized := by
    intro record hrecord
    have hmem := List.mem_map_of_mem (f := encodeRecord) hrecord
    rcases hholds with ⟨-, hnil⟩ | ⟨-, -, -, hlen⟩
    · rw [hnil] at hmem
      cases hmem
    · exact BrecciaRecord.sized_of_length (hlen _ hmem)
  rw [← mapM_decode_iff hsizes]
  constructor
  · intro hread
    obtain ⟨blobs, hblobs, hrecords⟩ := bind_eq_ok.mp hread
    rw [hholds.readAllBlobs] at hblobs
    cases hblobs
    exact hrecords
  · exact fun hrecords => bind_eq_ok.mpr ⟨_, hholds.readAllBlobs _, hrecords⟩

/-- A v1 entry whose root starts with `LBV2`. -/
def mistaggedEntry : CommitmentEntry :=
  ⟨⟨[0x4c, 0x42, 0x56, 0x32] ++ List.replicate 28 0, rfl⟩, [], 0, ""⟩

theorem brecciaRecord_not_roundTrip :
    ∃ entry : CommitmentEntry, decodeBrecciaBlob (encodeEntry entry) ≠ .ok (.v1 entry) :=
  ⟨mistaggedEntry, by decide⟩

def plainEntry : CommitmentEntry := ⟨Bytes32.replicate 7, [], 5, "7.c12"⟩

/-- The directory after the append of one entry to a log that did not exist. -/
def loggedDir : DataDir where
  path := "/lord"
  store := .empty
  masterKey := none
  carbonado := fun _ => none
  ots := fun _ => none
  pendingOts := fun _ => none
  breccia := (appendRecord "/lord/breccia/global.breccia" ⟨.ok (), .ok (), none, none, none⟩ none
    (.v1 plainEntry)).2

theorem brecciaRecords_roundTrip_plain :
    decodeBrecciaBlob (encodeRecord (.v1 plainEntry)) = .ok (.v1 plainEntry) ∧
      readBrecciaRecords loggedDir = .ok [.v1 plainEntry] := by
  have htag : ¬(BrecciaRecord.v1 plainEntry).Mistagged := by
    show ¬brecciaEntryV2Magic <+: plainEntry.baoRoot.val
    decide
  have hsized : (BrecciaRecord.v1 plainEntry).Sized := by
    show plainEntry.otsOrderKey.length < 256 ^ 8 ∧
      (Utf8.encode plainEntry.carbonadoPath).length < 256 ^ 8
    decide
  have hwritten : Written (brecciaPath loggedDir) loggedDir.breccia [.v1 plainEntry] :=
    @Written.append _ none _ [] ⟨.ok (), .ok (), none, none, none⟩ _ .empty rfl
  have hboth := brecciaRecords_roundTrip_iff _ hsized _ _ hwritten
  refine ⟨hboth.1.mpr htag, hboth.2.mpr ?_⟩
  intro record hrecord
  rwa [List.mem_singleton.mp hrecord]

/-! ### Torn appends -/

/-- An append of a blob, with the fault of its write. -/
structure AppendCall where
  fault : Option WriteFault
  blob : Bytes

/-- The append on a log that is open. -/
def AppendCall.apply (call : AppendCall) (bytes : Bytes) : Result Unit × Bytes :=
  appendBlob ⟨.ok (), .ok (), none, none, call.fault⟩ bytes call.blob

def execAppend (bytes : Bytes) (call : AppendCall) : Bytes := (call.apply bytes).2

/-- The blobs of the appends that succeed. -/
def okBlobs (bytes : Bytes) : List AppendCall → List Bytes
  | [] => []
  | call :: calls =>
    match call.apply bytes with
    | (.ok (), next) => call.blob :: okBlobs next calls
    | (.error _, next) => okBlobs next calls

/-- The log reads back, with every blob whose append succeeded, in order. -/
def SurvivesAppends (path : String) (version : Nat) (calls : List AppendCall) : Prop :=
  ∃ blobs, readAllBlobs path (some (run execAppend (brecciaHeader version) calls)) = .ok blobs ∧
    (okBlobs (brecciaHeader version) calls).Sublist blobs

/-- A write that fails fails before the first byte of the frame or behind its last. -/
def AppendCall.Whole (call : AppendCall) : Prop :=
  ∀ fault, call.fault = some fault → maxBrecciaBlobLen < call.blob.length ∨ fault.written = 0 ∨
    8 + call.blob.length ≤ fault.written

/-- A write that fails inside the length of the frame. -/
def AppendCall.CutInLength (call : AppendCall) : Prop :=
  ∃ fault, call.fault = some fault ∧ fault.written < 8

/-- The bytes of the frame that the call writes. -/
def AppendCall.written (call : AppendCall) : Nat :=
  if maxBrecciaBlobLen < call.blob.length then
    0
  else
    match call.fault with
    | none => 8 + call.blob.length
    | some fault => min fault.written (8 + call.blob.length)

/-- The calls together write fewer bytes than a length field has. -/
def CutInOneLength (calls : List AppendCall) : Prop :=
  (calls.map AppendCall.written).sum < 8

instance : DecidablePred CutInOneLength := fun calls =>
  inferInstanceAs (Decidable ((calls.map AppendCall.written).sum < 8))

/-- A whole append adds its frame, or fails and may leave the log as it was. -/
theorem AppendCall.Whole.apply {call : AppendCall} (h : call.Whole) (bytes : Bytes) :
    (call.blob.length ≤ maxBrecciaBlobLen ∧ (call.apply bytes).2 = bytes ++ brecciaFrame call.blob) ∨
      (∃ err, (call.apply bytes).1 = .error err) ∧ (call.apply bytes).2 = bytes := by
  unfold AppendCall.apply appendBlob
  by_cases hlen : maxBrecciaBlobLen < call.blob.length
  · rw [if_pos hlen]
    exact .inr ⟨⟨_, rfl⟩, rfl⟩
  rw [if_neg hlen]
  cases hfault : call.fault with
  | none => exact .inl ⟨by omega, rfl⟩
  | some fault =>
    rcases h fault hfault with hlong | hzero | hfull
    · exact absurd hlong hlen
    · refine .inr ⟨⟨_, rfl⟩, ?_⟩
      simp only [writeAll, hzero, List.take_zero, List.append_nil]
    · refine .inl ⟨by omega, ?_⟩
      simp only [writeAll]
      rw [List.take_of_length_le (by simp [brecciaFrame]; omega)]

/-- Whole appends leave a log of whole frames, with every blob whose append succeeded. -/
theorem run_whole {calls : List AppendCall} (h : ∀ call ∈ calls, call.Whole) (bytes : Bytes) :
    ∃ blobs, run execAppend bytes calls = bytes ++ blobs.flatMap brecciaFrame ∧
      (∀ blob ∈ blobs, blob.length ≤ maxBrecciaBlobLen) ∧ (okBlobs bytes calls).Sublist blobs := by
  induction calls generalizing bytes with
  | nil => exact ⟨[], by simp [run], by simp, List.Sublist.refl _⟩
  | cons call calls ih =>
    obtain ⟨blobs, hrun, hlen, hsub⟩ :=
      ih (fun c hc => h c (List.mem_cons_of_mem _ hc)) (execAppend bytes call)
    rcases (h call (by simp)).apply bytes with ⟨hblob, hadded⟩ | ⟨⟨err, herr⟩, hsame⟩
    · refine ⟨call.blob :: blobs, ?_, List.forall_mem_cons.mpr ⟨hblob, hlen⟩, ?_⟩
      · show run execAppend (execAppend bytes call) calls = _
        rw [hrun, execAppend, hadded, List.flatMap_cons, List.append_assoc]
      · unfold execAppend at hsub
        rw [okBlobs]
        rcases happly : call.apply bytes with ⟨result, next⟩
        rw [happly] at hsub
        cases result with
        | ok _ => exact hsub.cons_cons _
        | error _ => exact hsub.cons _
    · refine ⟨blobs, ?_, hlen, ?_⟩
      · show run execAppend (execAppend bytes call) calls = _
        rw [hrun, execAppend, hsame]
      · unfold execAppend at hsub
        rw [okBlobs]
        rcases happly : call.apply bytes with ⟨result, next⟩
        rw [happly] at hsub herr
        dsimp only at herr
        subst herr
        exact hsub

/-- A call that writes less than a length field fails. -/
theorem AppendCall.apply_of_written {call : AppendCall} (h : call.written < 8) (bytes : Bytes) :
    ∃ err part, call.apply bytes = (.error err, bytes ++ part) ∧ part.length = call.written := by
  unfold AppendCall.written at h ⊢
  unfold AppendCall.apply appendBlob
  by_cases hlen : maxBrecciaBlobLen < call.blob.length
  · rw [if_pos hlen, if_pos hlen]
    exact ⟨_, [], by rw [List.append_nil], rfl⟩
  rw [if_neg hlen] at h ⊢
  rw [if_neg hlen]
  cases hfault : call.fault with
  | none =>
    rw [hfault] at h
    dsimp only at h
    omega
  | some fault =>
    refine ⟨fault.error, (brecciaFrame call.blob).take fault.written, rfl, ?_⟩
    rw [List.length_take, brecciaFrame, List.length_append, LittleEndian.length_encode]

/-- Calls that together write less than a length field leave a tail shorter than one. -/
theorem run_cut {calls : List AppendCall} (h : CutInOneLength calls) (bytes : Bytes) :
    ∃ tail, run execAppend bytes calls = bytes ++ tail ∧ tail.length < 8 ∧
      okBlobs bytes calls = [] := by
  have hsum : ∃ tail, run execAppend bytes calls = bytes ++ tail ∧
      tail.length = (calls.map AppendCall.written).sum ∧ okBlobs bytes calls = [] := by
    induction calls generalizing bytes with
    | nil => exact ⟨[], (List.append_nil bytes).symm, rfl, rfl⟩
    | cons call calls ih =>
      rw [CutInOneLength, List.map_cons, List.sum_cons] at h
      obtain ⟨err, part, happly, hpart⟩ :=
        AppendCall.apply_of_written (show call.written < 8 by omega) bytes
      obtain ⟨tail, hrun, htail, hok⟩ :=
        ih (show CutInOneLength calls by rw [CutInOneLength]; omega) (bytes ++ part)
      have hstep : execAppend bytes call = bytes ++ part := by rw [execAppend, happly]
      refine ⟨part ++ tail, ?_, ?_, ?_⟩
      · show run execAppend (execAppend bytes call) calls = _
        rw [hstep, hrun, List.append_assoc]
      · rw [List.length_append, hpart, htail, List.map_cons, List.sum_cons]
      · rw [okBlobs, happly]
        exact hok
  obtain ⟨tail, hrun, htail, hok⟩ := hsum
  exact ⟨tail, hrun, htail ▸ h, hok⟩

theorem okBlobs_append (bytes : Bytes) (calls more : List AppendCall) :
    okBlobs bytes (calls ++ more) =
      okBlobs bytes calls ++ okBlobs (run execAppend bytes calls) more := by
  induction calls generalizing bytes with
  | nil => rfl
  | cons call calls ih =>
    have hrun : run execAppend bytes (call :: calls) =
        run execAppend (call.apply bytes).2 calls := rfl
    rw [List.cons_append, okBlobs, okBlobs, hrun]
    rcases call.apply bytes with ⟨result, next⟩
    cases result with
    | ok _ => exact congrArg (call.blob :: ·) (ih next)
    | error _ => exact ih next

/-- Whole frames read as their blobs, and the tail behind them as a log does. -/
theorem readAllBlobs_tail (path : String) {version : Nat}
    (hversion : version = brecciaHeaderVersionV1 ∨ version = brecciaHeaderVersionV2)
    {blobs : List Bytes} (h : ∀ blob ∈ blobs, blob.length ≤ maxBrecciaBlobLen) (tail : Bytes) :
    ∃ fuel, readAllBlobs path (some (brecciaHeader version ++ (blobs.flatMap brecciaFrame ++ tail))) =
      (readBlobs (fuel + 1) tail).map (blobs ++ ·) := by
  have hcount : blobs.length + 1 ≤
      (brecciaHeader version ++ (blobs.flatMap brecciaFrame ++ tail)).length := by
    have hflat := length_le_flatMap_brecciaFrame blobs
    rw [List.length_append, List.length_append, length_brecciaHeader, brecciaHeaderLen]
    omega
  obtain ⟨fuel, hfuel⟩ := Nat.exists_eq_add_of_le hcount
  refine ⟨fuel, ?_⟩
  simp only [readAllBlobs, openBreccia_header path hversion, drop_brecciaHeader]
  rw [readBlobs_append h (by omega)]
  congr 2
  omega

/-- Torn frames at the end of whole ones are survived as long as they do not fill a length field. -/
theorem survivesAppends_of_whole (path : String) {version : Nat}
    (hversion : version = brecciaHeaderVersionV1 ∨ version = brecciaHeaderVersionV2)
    {calls torn : List AppendCall} (h : ∀ call ∈ calls, call.Whole) (hcut : CutInOneLength torn) :
    SurvivesAppends path version (calls ++ torn) := by
  obtain ⟨blobs, hrun, hlen, hsub⟩ := run_whole h (brecciaHeader version)
  obtain ⟨tail, htail, hshort, hok⟩ := run_cut hcut (run execAppend (brecciaHeader version) calls)
  obtain ⟨fuel, hread⟩ := readAllBlobs_tail path hversion hlen tail
  have hboth : run execAppend (brecciaHeader version) (calls ++ torn) =
      run execAppend (run execAppend (brecciaHeader version) calls) torn := List.foldl_append
  refine ⟨blobs, ?_, ?_⟩
  · rw [hboth, htail, hrun, List.append_assoc, hread, readBlobs, if_pos hshort]
    exact congrArg Except.ok (List.append_nil blobs)
  · rw [okBlobs_append, hok, List.append_nil]
    exact hsub

/-- A torn append at the end is survived exactly when it is cut inside its length. -/
theorem survivesAppends_torn_iff (path : String) {version : Nat}
    (hversion : version = brecciaHeaderVersionV1 ∨ version = brecciaHeaderVersionV2)
    {calls : List AppendCall} (h : ∀ call ∈ calls, call.Whole) {last : AppendCall}
    {fault : WriteFault} (hfault : last.fault = some fault)
    (hlast : last.blob.length ≤ maxBrecciaBlobLen)
    (hcut : fault.written < 8 + last.blob.length) :
    SurvivesAppends path version (calls ++ [last]) ↔ fault.written < 8 := by
  obtain ⟨blobs, hrun, hlen, hsub⟩ := run_whole h (brecciaHeader version)
  have happly : ∀ bytes, last.apply bytes =
      (.error fault.error, bytes ++ (brecciaFrame last.blob).take fault.written) := by
    intro bytes
    rw [AppendCall.apply, appendBlob, if_neg (by omega), hfault]
    rfl
  have hok : okBlobs (brecciaHeader version) (calls ++ [last]) =
      okBlobs (brecciaHeader version) calls := by
    rw [okBlobs_append]
    simp only [okBlobs, happly, List.append_nil]
  have hbytes : run execAppend (brecciaHeader version) (calls ++ [last]) =
      brecciaHeader version ++
        (blobs.flatMap brecciaFrame ++ (brecciaFrame last.blob).take fault.written) := by
    rw [run_append, execAppend, happly, hrun, List.append_assoc]
  obtain ⟨fuel, hread⟩ :=
    readAllBlobs_tail path hversion hlen ((brecciaFrame last.blob).take fault.written)
  unfold SurvivesAppends
  rw [hbytes, hread, hok, ← readBlobs_cut hlast hcut fuel]
  cases readBlobs (fuel + 1) ((brecciaFrame last.blob).take fault.written) with
  | error err => simp [Except.map]
  | ok rest =>
    refine iff_of_true ⟨blobs ++ rest, rfl, ?_⟩ ⟨rest, rfl⟩
    exact hsub.trans (List.sublist_append_left _ _)

/-- A log survives whole appends, and behind them torn ones that together do not fill a length field; one
more append behind the whole ones is survived exactly when it is whole or cut inside its length. -/
theorem survivesAppends_iff (path : String) {version : Nat}
    (hversion : version = brecciaHeaderVersionV1 ∨ version = brecciaHeaderVersionV2)
    {calls : List AppendCall} (h : ∀ call ∈ calls, call.Whole) :
    (∀ torn, CutInOneLength torn → SurvivesAppends path version (calls ++ torn)) ∧
      ∀ last, SurvivesAppends path version (calls ++ [last]) ↔ last.Whole ∨ last.CutInLength := by
  refine ⟨fun torn hcut => survivesAppends_of_whole path hversion h hcut, fun last => ?_⟩
  by_cases hwhole : last.Whole
  · refine iff_of_true ?_ (.inl hwhole)
    have hall : ∀ call ∈ calls ++ [last], call.Whole := by
      intro call hcall
      rcases List.mem_append.mp hcall with hcall | hcall
      · exact h call hcall
      · rwa [List.mem_singleton.mp hcall]
    have hsurvives := survivesAppends_of_whole path hversion hall (show CutInOneLength [] by decide)
    rwa [List.append_nil] at hsurvives
  · unfold AppendCall.Whole at hwhole
    push Not at hwhole
    obtain ⟨fault, hfault, hlast, hpos, hcut⟩ := hwhole
    rw [survivesAppends_torn_iff path hversion h hfault (by omega) (by omega)]
    constructor
    · exact fun hlt => .inr ⟨fault, hfault, hlt⟩
    · rintro (hwhole | ⟨fault', hfault', hlt⟩)
      · rcases hwhole fault hfault with hlong | hzero | hfull <;> omega
      · rw [hfault] at hfault'
        cases hfault'
        exact hlt

/-- Two appends that leave three and four bytes are survived, and one that leaves the length is not. -/
theorem survivesAppends_cut_in_length :
    SurvivesAppends "/lord/breccia.log" brecciaHeaderVersionV1
        [⟨none, [1, 2]⟩, ⟨some ⟨3, "no space left on device"⟩, [3]⟩,
          ⟨some ⟨4, "no space left on device"⟩, [4]⟩] ∧
      ¬SurvivesAppends "/lord/breccia.log" brecciaHeaderVersionV1
        [⟨none, [1, 2]⟩, ⟨some ⟨8, "no space left on device"⟩, [3]⟩] := by
  have hcalls : ∀ call ∈ [(⟨none, [1, 2]⟩ : AppendCall)], call.Whole := by
    intro call hcall
    rw [List.mem_singleton.mp hcall]
    exact nofun
  obtain ⟨hsurvives, hlast⟩ := survivesAppends_iff "/lord/breccia.log" (.inl rfl) hcalls
  refine ⟨hsurvives [⟨some ⟨3, "no space left on device"⟩, [3]⟩,
    ⟨some ⟨4, "no space left on device"⟩, [4]⟩] (by decide), fun htorn => ?_⟩
  rcases (hlast ⟨some ⟨8, "no space left on device"⟩, [3]⟩).mp htorn with
    hwhole | ⟨fault, hfault, hcut⟩
  · exact absurd (hwhole _ rfl) (by decide)
  · obtain rfl := Option.some.inj hfault
    exact absurd hcut (by decide)

/-- A blob whose append succeeds behind a torn one is lost. -/
theorem not_survivesAppends_behind_torn :
    ¬SurvivesAppends "/lord/breccia.log" brecciaHeaderVersionV1
      [⟨some ⟨10, "no space left on device"⟩, [1, 2, 3]⟩, ⟨none, [4]⟩] := by
  rintro ⟨blobs, hread, -⟩
  have hfails : (readAllBlobs "/lord/breccia.log" (some (run execAppend
      (brecciaHeader brecciaHeaderVersionV1)
      [⟨some ⟨10, "no space left on device"⟩, [1, 2, 3]⟩, ⟨none, [4]⟩]))).isOk = false := by
    decide
  rw [hread] at hfails
  cases hfails

end Lord.Commit
