import Lord.Lib.LittleEndian

/-! The append-only breccia log: magic, version, then repeated length and blob bytes.  A write may
stop on the way, and then the log ends in a torn frame. -/

namespace Lord.Commit

/-- `LORBRECC`. -/
def brecciaMagic : Bytes := [0x4c, 0x4f, 0x52, 0x42, 0x52, 0x45, 0x43, 0x43]

def brecciaHeaderVersionV1 : Nat := 1

def brecciaHeaderVersionV2 : Nat := 2

def brecciaHeaderLen : Nat := 12

/-- Maximum serialized blob length accepted on read or append. -/
def maxBrecciaBlobLen : Nat := 2 ^ 20

def brecciaHeader (version : Nat) : Bytes := brecciaMagic ++ LittleEndian.encode 4 version

/-- A blob behind its length. -/
def brecciaFrame (blob : Bytes) : Bytes := LittleEndian.encode 8 blob.length ++ blob

/-- How the steps of an append on the file system go. -/
structure BrecciaEnv where
  createDir : Result Unit
  openFile : Result Unit
  writeHeader : Option WriteFault
  bumpHeader : Option WriteFault
  append : Option WriteFault

/-- `BrecciaLogMut::create`. -/
def createBreccia (path : String) (env : BrecciaEnv) : Result Unit × Option Bytes :=
  match env.openFile.context s!"failed to create `{path}`" with
  | .error err => (.error err, none)
  | .ok () =>
    let written := writeAll env.writeHeader (brecciaHeader brecciaHeaderVersionV1)
    (written.1, some written.2)

/-- `BrecciaLogMut::open`, with what opening the file comes to. -/
def openBreccia (path : String) (opened : Result Unit) (bytes : Bytes) : Result Unit :=
  match opened.context s!"failed to open `{path}`" with
  | .error err => .error err
  | .ok () =>
    if bytes.length < brecciaMagic.length then
      .error "failed to fill whole buffer"
    else if bytes.take brecciaMagic.length ≠ brecciaMagic then
      .error s!"invalid breccia magic in `{path}`"
    else if bytes.length < brecciaHeaderLen then
      .error "failed to fill whole buffer"
    else
      let version := LittleEndian.decode ((bytes.drop brecciaMagic.length).take 4)
      if version ≠ brecciaHeaderVersionV1 ∧ version ≠ brecciaHeaderVersionV2 then
        .error s!"unsupported breccia header version in `{path}`"
      else
        .ok ()

/-- `BrecciaLog::open_or_create`: the log with the bytes that it then has. -/
def openOrCreateBreccia (path : String) (env : BrecciaEnv) (log : Option Bytes) :
    Result Unit × Option Bytes :=
  match log with
  | some bytes => (openBreccia path env.openFile bytes, log)
  | none =>
    match env.createDir with
    | .error err => (.error err, none)
    | .ok () => createBreccia path env

/-- Bump the file header to v2 (no rewrite of v1 blobs). -/
def ensureV2Header (env : BrecciaEnv) (bytes : Bytes) : Result Unit × Bytes :=
  let written := writeAll env.bumpHeader (LittleEndian.encode 4 brecciaHeaderVersionV2)
  (written.1, bytes.take brecciaMagic.length ++
    (written.2 ++ bytes.drop (brecciaMagic.length + written.2.length)))

def appendBlob (env : BrecciaEnv) (bytes blob : Bytes) : Result Unit × Bytes :=
  if maxBrecciaBlobLen < blob.length then
    (.error s!"breccia blob length {blob.length} exceeds maximum {maxBrecciaBlobLen}", bytes)
  else
    let written := writeAll env.append (brecciaFrame blob)
    (written.1, bytes ++ written.2)

/-- The blobs behind the header; `fuel` bounds their number. -/
def readBlobs : Nat → Bytes → Result (List Bytes)
  | 0, _ => .ok []
  | fuel + 1, bytes =>
    if bytes.length < 8 then
      .ok []
    else
      let len := LittleEndian.decode (bytes.take 8)
      if maxBrecciaBlobLen < len then
        .error s!"breccia blob length {len} exceeds maximum {maxBrecciaBlobLen}"
      else if (bytes.drop 8).length < len then
        .error "failed to fill whole buffer"
      else
        match readBlobs fuel ((bytes.drop 8).drop len) with
        | .error err => .error err
        | .ok blobs => .ok ((bytes.drop 8).take len :: blobs)

def readAllBlobs (path : String) (log : Option Bytes) : Result (List Bytes) :=
  match log with
  | none => .ok []
  | some bytes =>
    match openBreccia path (.ok ()) bytes with
    | .error err => .error err
    | .ok () => readBlobs bytes.length (bytes.drop brecciaHeaderLen)

/-- An append of one blob, with the bump of the header that a v2 blob asks for. -/
def appendBreccia (path : String) (env : BrecciaEnv) (log : Option Bytes) (bump : Bool)
    (blob : Bytes) (message : String) : Result Unit × Option Bytes :=
  match openOrCreateBreccia path env log with
  | (.error err, log) => (.error err, log)
  | (.ok (), log) =>
    let bytes := log.getD []
    let bumped := if bump then ensureV2Header env bytes else (.ok (), bytes)
    match bumped with
    | (.error err, bytes) => (.error err, some bytes)
    | (.ok (), bytes) =>
      let appended := appendBlob env bytes blob
      (appended.1.context message, some appended.2)

/-! ### Logs of whole frames -/

/-- The log consists of a header and these blobs, or it does not exist yet. -/
def HoldsBlobs (log : Option Bytes) (blobs : List Bytes) : Prop :=
  (log = none ∧ blobs = []) ∨
    ∃ version, (version = brecciaHeaderVersionV1 ∨ version = brecciaHeaderVersionV2) ∧
      log = some (brecciaHeader version ++ blobs.flatMap brecciaFrame) ∧
      ∀ blob ∈ blobs, blob.length ≤ maxBrecciaBlobLen

/-- A write that fails leaves no part of a header or a frame. -/
structure BrecciaEnv.Untorn (env : BrecciaEnv) : Prop where
  writeHeader : ∀ fault, env.writeHeader = some fault → brecciaHeaderLen ≤ fault.written
  append : ∀ fault, env.append = some fault →
    fault.written = 0 ∨ 8 + maxBrecciaBlobLen ≤ fault.written

@[simp] theorem length_brecciaHeader (version : Nat) :
    (brecciaHeader version).length = brecciaHeaderLen := by
  simp [brecciaHeader, brecciaMagic, brecciaHeaderLen]

theorem take_brecciaHeader (version : Nat) (tail : Bytes) :
    (brecciaHeader version ++ tail).take brecciaMagic.length = brecciaMagic := by
  rw [brecciaHeader, List.append_assoc, List.take_left]

theorem drop_brecciaHeader (version : Nat) (tail : Bytes) :
    (brecciaHeader version ++ tail).drop brecciaHeaderLen = tail := by
  rw [← length_brecciaHeader version, List.drop_left]

/-- The version is read back from the header. -/
theorem version_brecciaHeader {version : Nat}
    (h : version = brecciaHeaderVersionV1 ∨ version = brecciaHeaderVersionV2) (tail : Bytes) :
    LittleEndian.decode
      (((brecciaHeader version ++ tail).drop brecciaMagic.length).take 4) = version := by
  rw [brecciaHeader, List.append_assoc, List.drop_left,
    List.take_append_of_le_length (by simp), List.take_of_length_le (by simp)]
  apply LittleEndian.decode_encode
  rcases h with rfl | rfl <;> decide

/-- Whole frames read as their blobs, in front of whatever follows. -/
theorem readBlobs_append {blobs : List Bytes} (h : ∀ blob ∈ blobs, blob.length ≤ maxBrecciaBlobLen)
    {fuel : Nat} (hfuel : blobs.length ≤ fuel) (tail : Bytes) :
    readBlobs fuel (blobs.flatMap brecciaFrame ++ tail) =
      (readBlobs (fuel - blobs.length) tail).map (blobs ++ ·) := by
  induction blobs generalizing fuel with
  | nil => cases hread : readBlobs fuel tail <;> simp [hread, Except.map]
  | cons blob rest ih =>
    obtain ⟨fuel, rfl⟩ : ∃ f, fuel = f + 1 := ⟨fuel - 1, by simp at hfuel; omega⟩
    have hblob := h blob (by simp)
    have hrest := ih (fun b hb => h b (List.mem_cons_of_mem _ hb)) (by simpa using hfuel)
    have hbegin : (LittleEndian.encode 8 blob.length).length = 8 := by simp
    have hdecode : LittleEndian.decode (LittleEndian.encode 8 blob.length) = blob.length :=
      LittleEndian.decode_encode (by simp only [maxBrecciaBlobLen] at hblob; omega)
    have htake : ∀ tail : Bytes, (LittleEndian.encode 8 blob.length ++ tail).take 8 =
        LittleEndian.encode 8 blob.length := fun tail => by
      rw [List.take_append_of_le_length (by omega), List.take_of_length_le (by omega)]
    have hdrop : ∀ tail : Bytes, (LittleEndian.encode 8 blob.length ++ tail).drop 8 = tail :=
      fun tail => List.drop_left' hbegin
    rw [List.flatMap_cons, brecciaFrame, List.append_assoc, List.append_assoc, readBlobs,
      if_neg (by simp), htake, hdecode, if_neg (by omega), hdrop, if_neg (by simp), List.drop_left,
      hrest, List.take_left, List.length_cons, Nat.add_sub_add_right]
    cases readBlobs (fuel - rest.length) tail <;> rfl

theorem readBlobs_nil (fuel : Nat) : readBlobs fuel [] = .ok [] := by
  cases fuel <;> simp [readBlobs]

theorem readBlobs_frames {blobs : List Bytes} (h : ∀ blob ∈ blobs, blob.length ≤ maxBrecciaBlobLen)
    {fuel : Nat} (hfuel : blobs.length ≤ fuel) :
    readBlobs fuel (blobs.flatMap brecciaFrame) = .ok blobs := by
  have hread := readBlobs_append h hfuel []
  rw [List.append_nil, readBlobs_nil] at hread
  simpa [Except.map] using hread

/-- A cut in the length field is the end of the log, and a cut in the blob is an error. -/
theorem readBlobs_cut {blob : Bytes} (h : blob.length ≤ maxBrecciaBlobLen) {written : Nat}
    (hcut : written < 8 + blob.length) (fuel : Nat) :
    (∃ blobs, readBlobs (fuel + 1) ((brecciaFrame blob).take written) = .ok blobs) ↔
      written < 8 := by
  have hlen : ((brecciaFrame blob).take written).length = written := by
    simp only [brecciaFrame, List.length_take, List.length_append, LittleEndian.length_encode]
    omega
  rw [readBlobs, hlen]
  by_cases hshort : written < 8
  · simp [hshort]
  · have htake : ((brecciaFrame blob).take written).take 8 =
        LittleEndian.encode 8 blob.length := by
      rw [List.take_take, Nat.min_eq_left (by omega), brecciaFrame,
        List.take_append_of_le_length (by simp), List.take_of_length_le (by simp)]
    have hdecode : LittleEndian.decode (LittleEndian.encode 8 blob.length) = blob.length :=
      LittleEndian.decode_encode (by simp only [maxBrecciaBlobLen] at h; omega)
    have hrest : (((brecciaFrame blob).take written).drop 8).length < blob.length := by
      rw [List.length_drop, hlen]
      omega
    rw [if_neg hshort, htake, hdecode, if_neg (by omega), if_pos hrest]
    simp [hshort]

theorem openBreccia_header (path : String) {version : Nat}
    (h : version = brecciaHeaderVersionV1 ∨ version = brecciaHeaderVersionV2) (tail : Bytes) :
    openBreccia path (.ok ()) (brecciaHeader version ++ tail) = .ok () := by
  have hlen : (brecciaHeader version ++ tail).length = 12 + tail.length := by
    simp [brecciaHeaderLen]
  unfold openBreccia
  simp only [Result.context, take_brecciaHeader, version_brecciaHeader h, hlen]
  rw [if_neg (by simp [brecciaMagic]; omega), if_neg (by simp),
    if_neg (by simp [brecciaHeaderLen]), if_neg]
  rcases h with rfl | rfl <;> decide

theorem length_le_flatMap_brecciaFrame (blobs : List Bytes) :
    blobs.length ≤ (blobs.flatMap brecciaFrame).length := by
  induction blobs with
  | nil => simp
  | cons blob rest ih =>
    simp only [List.flatMap_cons, List.length_append, List.length_cons, brecciaFrame,
      LittleEndian.length_encode]
    omega

/-- A log of whole frames reads back as its blobs. -/
theorem HoldsBlobs.readAllBlobs {log : Option Bytes} {blobs : List Bytes} (h : HoldsBlobs log blobs)
    (path : String) : readAllBlobs path log = .ok blobs := by
  rcases h with ⟨rfl, rfl⟩ | ⟨version, hversion, rfl, hlen⟩
  · rfl
  · have hcount : blobs.length ≤ (brecciaHeader version ++ blobs.flatMap brecciaFrame).length := by
      have hflat := length_le_flatMap_brecciaFrame blobs
      rw [List.length_append]
      omega
    simp only [Commit.readAllBlobs, openBreccia_header path hversion, drop_brecciaHeader]
    exact readBlobs_frames hlen hcount

/-- An open or a creation leaves the blobs as they are; when it succeeds the log exists. -/
theorem openOrCreateBreccia_holds (path : String) {env : BrecciaEnv} {log : Option Bytes}
    {blobs : List Bytes} (h : HoldsBlobs log blobs) (hwhole : env.Untorn) :
    HoldsBlobs (openOrCreateBreccia path env log).2 blobs ∧
      ((openOrCreateBreccia path env log).1 = .ok () →
        (openOrCreateBreccia path env log).2 ≠ none) := by
  rcases h with ⟨rfl, rfl⟩ | ⟨version, hversion, rfl, hlen⟩
  · unfold openOrCreateBreccia createBreccia
    cases env.createDir with
    | error err => exact ⟨.inl ⟨rfl, rfl⟩, by rintro ⟨⟩⟩
    | ok _ =>
      cases env.openFile with
      | error err => exact ⟨.inl ⟨rfl, rfl⟩, by rintro ⟨⟩⟩
      | ok _ =>
        have hwritten : (writeAll env.writeHeader (brecciaHeader brecciaHeaderVersionV1)).2 =
            brecciaHeader brecciaHeaderVersionV1 := by
          cases hfault : env.writeHeader with
          | none => rfl
          | some fault =>
            have hle := hwhole.writeHeader fault hfault
            simp only [writeAll]
            exact List.take_of_length_le (by simpa using hle)
        simp only [Result.context, hwritten]
        exact ⟨.inr ⟨_, .inl rfl, by simp, by simp⟩, by simp⟩
  · exact ⟨.inr ⟨version, hversion, rfl, hlen⟩, by simp [openOrCreateBreccia]⟩

/-- A bump, whole or not, leaves a header of one of the two versions: of the second when it is whole
or the header was so before. -/
theorem ensureV2Header_bytes (env : BrecciaEnv) {version : Nat}
    (h : version = brecciaHeaderVersionV1 ∨ version = brecciaHeaderVersionV2) (tail : Bytes) :
    ∃ version', (version' = brecciaHeaderVersionV1 ∨ version' = brecciaHeaderVersionV2) ∧
      (version = brecciaHeaderVersionV2 ∨ env.bumpHeader = none →
        version' = brecciaHeaderVersionV2) ∧
      (ensureV2Header env (brecciaHeader version ++ tail)).2 = brecciaHeader version' ++ tail := by
  have hbytes : ∀ count, ∃ version', (version' = brecciaHeaderVersionV1 ∨
      version' = brecciaHeaderVersionV2) ∧
        (version = brecciaHeaderVersionV2 → version' = brecciaHeaderVersionV2) ∧
        (LittleEndian.encode 4 brecciaHeaderVersionV2).take count ++
          (LittleEndian.encode 4 version).drop count = LittleEndian.encode 4 version' := by
    intro count
    match count with
    | 0 => exact ⟨version, h, id, rfl⟩
    | 1 | 2 | 3 => rcases h with rfl | rfl <;> exact ⟨_, .inr rfl, fun _ => rfl, by decide⟩
    | count + 4 =>
      refine ⟨_, .inr rfl, fun _ => rfl, ?_⟩
      rw [List.take_of_length_le (by simp), List.drop_of_length_le (by simp), List.append_nil]
  have hshape : ∀ written : Bytes, written.length ≤ 4 →
      (brecciaHeader version ++ tail).take brecciaMagic.length ++
        (written ++ (brecciaHeader version ++ tail).drop (brecciaMagic.length + written.length)) =
      brecciaMagic ++ (written ++ (LittleEndian.encode 4 version).drop written.length) ++ tail := by
    intro written hwritten
    rw [brecciaHeader, List.append_assoc, List.take_left, ← List.drop_drop, List.drop_left,
      List.drop_append_of_le_length (by simpa using hwritten)]
    simp
  unfold ensureV2Header
  cases env.bumpHeader with
  | none =>
    refine ⟨_, .inr rfl, fun _ => rfl, ?_⟩
    simp only [writeAll_none]
    rw [hshape _ (by simp), List.drop_of_length_le (by simp), List.append_nil, brecciaHeader]
  | some fault =>
    obtain ⟨version', hversion', hkept, heq⟩ := hbytes (min fault.written 4)
    refine ⟨version', hversion', fun hv2 => hkept (hv2.resolve_right nofun), ?_⟩
    simp only [writeAll]
    have htake : (LittleEndian.encode 4 brecciaHeaderVersionV2).take fault.written =
        (LittleEndian.encode 4 brecciaHeaderVersionV2).take (min fault.written 4) := by
      rw [List.take_eq_take_iff]
      simp
    have hcount : ((LittleEndian.encode 4 brecciaHeaderVersionV2).take
        (min fault.written 4)).length = min fault.written 4 := by
      simp
    rw [htake, hshape _ (by simp), hcount, heq, brecciaHeader]

/-- An append adds its blob or nothing, and a successful one adds it. -/
theorem appendBreccia_holds {path : String} {env : BrecciaEnv} {log : Option Bytes}
    {blobs : List Bytes} (h : HoldsBlobs log blobs) (hwhole : env.Untorn) (bump : Bool)
    (blob : Bytes) (message : String) :
    (HoldsBlobs (appendBreccia path env log bump blob message).2 (blobs ++ [blob]) ∨
      HoldsBlobs (appendBreccia path env log bump blob message).2 blobs ∧
        (appendBreccia path env log bump blob message).1 ≠ .ok ()) := by
  obtain ⟨hopen, hexists⟩ := openOrCreateBreccia_holds path h hwhole
  unfold appendBreccia
  rcases hrun : openOrCreateBreccia path env log with ⟨result, opened⟩
  rw [hrun] at hopen hexists
  cases result with
  | error err => exact .inr ⟨hopen, by simp⟩
  | ok _ =>
    rcases hopen with ⟨hnone, -⟩ | ⟨version, hversion, hbytes, hlen⟩
    · exact absurd hnone (hexists rfl)
    dsimp only at hbytes
    subst hbytes
    have hbumped : ∃ version', (version' = brecciaHeaderVersionV1 ∨
        version' = brecciaHeaderVersionV2) ∧
        (if bump then ensureV2Header env (brecciaHeader version ++ blobs.flatMap brecciaFrame)
          else (.ok (), brecciaHeader version ++ blobs.flatMap brecciaFrame)).2 =
        brecciaHeader version' ++ blobs.flatMap brecciaFrame := by
      cases bump with
      | true =>
        obtain ⟨version', hversion', -, hbytes⟩ := ensureV2Header_bytes env hversion _
        exact ⟨version', hversion', hbytes⟩
      | false => exact ⟨version, hversion, rfl⟩
    obtain ⟨version', hversion', hbytes⟩ := hbumped
    simp only [Option.getD_some]
    rcases hrun' : (if bump then ensureV2Header env
      (brecciaHeader version ++ blobs.flatMap brecciaFrame)
      else (.ok (), brecciaHeader version ++ blobs.flatMap brecciaFrame)) with ⟨result, bytes⟩
    rw [hrun'] at hbytes
    dsimp only at hbytes
    subst hbytes
    cases result with
    | error err => exact .inr ⟨.inr ⟨version', hversion', rfl, hlen⟩, by simp⟩
    | ok _ =>
      dsimp only
      unfold appendBlob
      split
      · exact .inr ⟨.inr ⟨version', hversion', rfl, hlen⟩, by simp [Result.context]⟩
      rename_i hblob
      have hadded : HoldsBlobs (some (brecciaHeader version' ++ blobs.flatMap brecciaFrame ++
          brecciaFrame blob)) (blobs ++ [blob]) := by
        refine .inr ⟨version', hversion', by simp, ?_⟩
        intro b hb
        rcases List.mem_append.mp hb with hb | hb
        · exact hlen b hb
        · rw [List.mem_singleton.mp hb]
          omega
      cases hfault : env.append with
      | none => exact .inl hadded
      | some fault =>
        rcases hwhole.append fault hfault with hzero | hfull
        · refine .inr ⟨?_, by simp [writeAll, Result.context]⟩
          simp only [writeAll, hzero, List.take_zero, List.append_nil]
          exact .inr ⟨version', hversion', rfl, hlen⟩
        · refine .inl ?_
          simp only [writeAll]
          rw [List.take_of_length_le (by simp [brecciaFrame]; omega)]
          exact hadded

end Lord.Commit
