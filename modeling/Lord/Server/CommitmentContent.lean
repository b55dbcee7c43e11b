import Lord.Server.CommitmentPages
import Lord.Storage.SealedFiles

/-! The content of a commitment.  Behind every row of a run lies a container that some call sealed
under its root, so a request for public content is answered with what a call encoded, or refused for
its size. -/

namespace Lord.Server

open Storage Ots Commit Runs

/-! ### The handler -/

/-- `char::is_control`. -/
def isControl (c : Char) : Bool := c.toNat < 0x20 || (0x7f ≤ c.toNat && c.toNat < 0xa0)

def isLikelyText (payload : Bytes) : Bool :=
  if payload.isEmpty then
    false
  else
    match Utf8.decode payload with
    | some text => text.toList.all fun c => !isControl c || c = '\n' || c = '\r' || c = '\t'
    | none => false

def contentTypeForDecodedPayload (payload : Bytes) : String :=
  if [0x89, 0x50, 0x4e, 0x47, 0x0d, 0x0a, 0x1a, 0x0a].isPrefixOf payload then "image/png"
  else if [0xff, 0xd8, 0xff].isPrefixOf payload then "image/jpeg"
  else if 12 ≤ payload.length && (Utf8.encode "RIFF").isPrefixOf payload &&
      (payload.drop 8).take 4 = Utf8.encode "WEBP" then "image/webp"
  else if (Utf8.encode "GIF87a").isPrefixOf payload || (Utf8.encode "GIF89a").isPrefixOf payload then
    "image/gif"
  else if (Utf8.encode "%PDF").isPrefixOf payload then "application/pdf"
  else if isLikelyText payload then "text/plain; charset=utf-8"
  else "application/octet-stream"

structure ContentResponse where
  contentType : String
  body : Bytes
  deriving Repr, DecidableEq

def defaultMaxDecodedPayloadBytes : Nat := 32 * 1024 * 1024

def privateContent : ServerError :=
  .forbidden "private commitment content requires authentication (not implemented)"

def corruptContent : ServerError := .badRequest "invalid or corrupt commitment content"

def decodeErrorToServerError (err : DecodeError) (carbonadoPath : String) : ServerError :=
  match err with
  | .oversized maxBytes => .badRequest s!"decoded payload exceeds maximum size of {maxBytes} bytes"
  | .encodedFileTooLarge _ maxBytes =>
    .badRequest s!"carbonado file exceeds maximum encoded size of {maxBytes} bytes"
  | .carbonadoNotFound _ => .notFound s!"carbonado file `{carbonadoPath}`"
  | .invalidPath message => .badRequest message
  | .privateFormat => privateContent
  | .invalidHeader | .headerAuthFailed | .headerBindingMismatch | .formatMismatch .. |
      .corruptPayload => corruptContent
  | .internal err => .internal err

def parseBaoRootHex (hexStr : String) : Except ServerError Bytes32 :=
  match Hex.fromHex hexStr.toList with
  | .error err => .error (.badRequest err.text)
  | .ok bytes =>
    if h : bytes.length = 32 then .ok ⟨bytes, h⟩
    else .error (.badRequest "bao root must be 32 bytes")

/-- The regular expression for the ids of inscriptions, over the decimal numbers of Unicode. -/
def isInscriptionId (decimalNumber : Char → Bool) (id : List Char) : Bool :=
  (id.take 64).length = 64 && (id.take 64).all (fun c => (Hex.digitValue c).isSome) &&
    (id.drop 64).head? = some 'i' && !(id.drop 65).isEmpty && (id.drop 65).all decimalNumber

section

variable [Carbonado]

def commitmentContent (dir : DataDir) (opened : Result StorageStore) (baoRootHex : String) :
    Except ServerError ContentResponse :=
  match opened with
  | .error err => .error (.internal err)
  | .ok store =>
    match parseBaoRootHex baoRootHex with
    | .error err => .error err
    | .ok baoRoot =>
      match store.getCommitment baoRoot with
      | none => .error (.notFound s!"commitment {baoRootHex} not found")
      | some row =>
        if row.visibility = .priv ∨ row.format % 2 ≠ 0 then
          .error privateContent
        else
          match decodePublicCommitmentContent dir row baoRoot defaultMaxDecodedPayloadBytes with
          | .error err => .error (decodeErrorToServerError err row.carbonadoPath)
          | .ok decoded => .ok ⟨contentTypeForDecodedPayload decoded, decoded⟩

/-- `/content/{id}`. -/
def content (decimalNumber : Char → Bool) (dir : DataDir) (opened : Result StorageStore)
    (id : String) : Except ServerError ContentResponse :=
  if isInscriptionId decimalNumber id.toList then
    .error (.gone "inscription content is not available in lord")
  else
    commitmentContent dir opened id

end

/-- The root of a commitment is not taken for an inscription. -/
theorem not_isInscriptionId {decimalNumber : Char → Bool} {id : String} {baoRoot : Bytes32}
    (h : Hex.decode id = some baoRoot.val) : isInscriptionId decimalNumber id.toList = false := by
  have hlength := (Hex.ofDigits_some h).1
  rw [baoRoot.property] at hlength
  have hdrop : id.toList.drop 64 = [] := List.drop_eq_nil_of_le (by omega)
  simp [isInscriptionId, hdrop]

theorem parseBaoRootHex_eq {id : String} {baoRoot : Bytes32} (h : Hex.decode id = some baoRoot.val) :
    parseBaoRootHex id = .ok baoRoot := by
  have hread : Hex.fromHex id.toList = .ok baoRoot.val := Hex.fromHex_eq_ok.mpr h
  simp [parseBaoRootHex, hread, baoRoot.property]

/-! ### Rows and their containers -/

section

variable [Carbonado] {stages : Stages}

/-- Every row names the container of its root, which is there, and every container was sealed of a
plaintext of this kind. -/
structure Servable (served : Bytes → Prop) (dir : DataDir) : Prop where
  rows : ∀ baoRoot row, dir.store.getCommitment baoRoot = some row →
    row.visibility = .fromFormat row.format ∧ row.carbonadoPath = containerName baoRoot row.format ∧
      (dir.carbonado row.carbonadoPath).isSome
  files : ∀ baoRoot format encoded, dir.carbonado (containerName baoRoot format) = some encoded →
    Sealed served baoRoot format encoded

variable {served : Bytes → Prop} {dir dir' : DataDir}

theorem Servable.empty (served : Bytes → Prop) (dir : DataDir) :
    Servable served { dir with store := .empty, carbonado := fun _ => none } := by
  refine ⟨fun baoRoot row h => ?_, fun baoRoot format encoded h => ?_⟩
  · simp [StorageStore.getCommitment, StorageStore.empty] at h
  · cases h

/-- Calls that write no container and keep what the encodes wrote into the rows. -/
theorem Servable.of_rows (h : Servable served dir) (hfiles : dir'.carbonado = dir.carbonado)
    (hrows : ∀ r, (dir'.store.getCommitment r).map asEncoded =
      (dir.store.getCommitment r).map asEncoded) : Servable served dir' := by
  refine ⟨fun baoRoot row hrow => ?_, fun baoRoot format encoded hfile => ?_⟩
  · have hmap := hrows baoRoot
    rw [hrow, Option.map_some] at hmap
    obtain ⟨before, hbefore, hsame⟩ := Option.map_eq_some_iff.mp hmap.symm
    have hvisibility : before.visibility = row.visibility :=
      show (asEncoded before).visibility = (asEncoded row).visibility by rw [hsame]
    have hformat : before.format = row.format :=
      show (asEncoded before).format = (asEncoded row).format by rw [hsame]
    have hpath : before.carbonadoPath = row.carbonadoPath :=
      show (asEncoded before).carbonadoPath = (asEncoded row).carbonadoPath by rw [hsame]
    rw [hfiles, ← hvisibility, ← hformat, ← hpath]
    exact h.rows baoRoot before hbefore
  · rw [hfiles] at hfile
    exact h.files baoRoot format encoded hfile

/-- A container that is written, with its row or without it. -/
theorem Servable.of_container {baoRoot : Bytes32} {format : UInt8} {encoded : Bytes}
    (h : Servable served dir) (hsealed : Sealed served baoRoot format encoded)
    (hwrites : WritesContainer dir dir' baoRoot format encoded) : Servable served dir' := by
  have hkeeps : ∀ r f, (dir.carbonado (containerName r f)).isSome →
      (dir'.carbonado (containerName r f)).isSome := by
    intro r f hsome
    rcases hwrites.files r f with hsame | ⟨-, -, hnew⟩
    · rwa [hsame]
    · rw [hnew]
      rfl
  have hold : ∀ r row, dir.store.getCommitment r = some row →
      row.visibility = .fromFormat row.format ∧ row.carbonadoPath = containerName r row.format ∧
        (dir'.carbonado row.carbonadoPath).isSome := by
    intro r row hrow
    obtain ⟨hvisibility, hpath, hsome⟩ := h.rows r row hrow
    refine ⟨hvisibility, hpath, ?_⟩
    rw [hpath] at hsome ⊢
    exact hkeeps r row.format hsome
  refine ⟨fun r row hrow => ?_, fun r f data hfile => ?_⟩
  · rcases hwrites.store with hstore | ⟨hfile, layout, createdAt, hstore⟩
    · rw [hstore] at hrow
      exact hold r row hrow
    · rw [hstore, StorageStore.getCommitment_putCommitment] at hrow
      split at hrow
      · rename_i hroot
        cases hrow
        obtain rfl : baoRoot = r := hroot
        refine ⟨rfl, rfl, ?_⟩
        change (dir'.carbonado (containerName baoRoot format)).isSome
        rw [hfile]
        rfl
      · exact hold r row hrow
  · rcases hwrites.files r f with hsame | ⟨rfl, rfl, hnew⟩
    · rw [hsame] at hfile
      exact h.files r f data hfile
    · rw [hnew] at hfile
      cases hfile
      exact hsealed

/-! ### One call -/

theorem Servable.encodeFile (laws : stages.Laws) (h : Servable served dir) (env : EncodeEnv)
    (options : EncodeOptions)
    (hreads : ∀ plaintext, readPlaintext env options = .ok plaintext → served plaintext) :
    Servable served (encodeFileWithStore dir env options).2 := by
  rcases encodeFileWithStore_writes_container laws dir env options with
    ⟨hstore, hfiles⟩ | ⟨plaintext, encoded, baoRoot, hread, hsealed, hwrites⟩
  · exact h.of_rows hfiles fun r => by rw [hstore]
  · exact h.of_container (hsealed.mono fun _ heq => heq ▸ hreads plaintext hread) hwrites

theorem Servable.encodeEntries (laws : stages.Laws) (h : Servable served dir) (sourceDir : String)
    (options : CreateFilepackOptions) (files : List SourceFile)
    (hreads : ∀ file ∈ files, ∀ plaintext, file.content = .ok plaintext → served plaintext) :
    Servable served (encodeEntries dir sourceDir options files).2 := by
  induction files generalizing dir with
  | nil => exact h
  | cons file rest ih =>
    have hfile : Servable served (Storage.encodeEntry dir sourceDir options file).2 := by
      unfold Storage.encodeEntry
      split
      · exact h
      rename_i plaintext hcontent
      rw [Result.context_eq_ok] at hcontent
      have hencode := h.encodeFile laws file.env (options.encodeOptions plaintext)
        (by rintro _ ⟨⟩; exact hreads file List.mem_cons_self plaintext hcontent)
      rcases hrun : encodeFileWithStore dir file.env (options.encodeOptions plaintext) with
        ⟨result, dir'⟩
      rw [hrun] at hencode
      cases result <;> exact hencode
    unfold Storage.encodeEntries
    rcases hrun : Storage.encodeEntry dir sourceDir options file with ⟨result, dir'⟩
    rw [hrun] at hfile
    cases result with
    | error err => exact hfile
    | ok entry =>
      have hrest := ih hfile fun other hother => hreads other (List.mem_cons_of_mem file hother)
      dsimp only
      rcases hentries : Storage.encodeEntries dir' sourceDir options rest with ⟨result, dir''⟩
      rw [hentries] at hrest
      cases result <;> exact hrest

theorem Servable.createFilepack (laws : stages.Laws) (h : Servable served dir) (env : FilepackEnv)
    (options : CreateFilepackOptions)
    (hreads : ∀ files, env.walk = .ok files → ∀ file ∈ files, ∀ plaintext,
      file.content = .ok plaintext → served plaintext) :
    Servable served (Storage.createFilepack dir env options).2 := by
  unfold Storage.createFilepack
  split
  · exact h
  split
  · exact h
  rename_i files hwalk
  split
  · exact h
  have hentries := h.encodeEntries laws env.sourceDir options (sortFiles files) fun file hfile =>
    hreads files hwalk file ((List.mem_insertionSort _).mp hfile)
  rcases hrun : Storage.encodeEntries dir env.sourceDir options (sortFiles files) with
    ⟨result, dir'⟩
  rw [hrun] at hentries
  cases result with
  | error err => exact hentries
  | ok entries =>
    exact hentries.of_rows rfl (publishFilepack_writes dir'.store env options entries).map_asEncoded

/-! ### Timestamps and upgrades write no container -/

omit [Carbonado] in
theorem finishTimestamp_carbonado (dir : DataDir) (staged : Staged) (env : TimestampEnv) :
    (finishTimestamp dir staged env).2.carbonado = dir.carbonado := by
  have hpublish : (publishTimestamp dir staged env).2.carbonado = dir.carbonado := by
    unfold publishTimestamp
    split
    · rfl
    split
    · rfl
    split <;> rfl
  unfold finishTimestamp
  rcases hrun : publishTimestamp dir staged env with ⟨result, dir'⟩
  rw [hrun] at hpublish
  cases result with
  | ok _ => exact hpublish
  | error err =>
    dsimp only
    split <;> exact hpublish

section

variable [OtsCodec]

omit [Carbonado] in
theorem recordUpgrade_carbonado (dir : DataDir) (staged : StagedUpgrade) (env : UpgradeEnv)
    (upgraded : Bool) : (recordUpgrade dir staged env upgraded).2.carbonado = dir.carbonado := by
  have hrecord :
      (maybeAppendBrecciaV2AndEnqueueLtp dir staged env).2.carbonado = dir.carbonado := by
    unfold maybeAppendBrecciaV2AndEnqueueLtp
    split
    · rfl
    split
    · rfl
    · rfl
    split <;> rfl
  unfold recordUpgrade
  rcases hrun : maybeAppendBrecciaV2AndEnqueueLtp dir staged env with ⟨result, dir'⟩
  rw [hrun] at hrecord
  cases result <;> exact hrecord

omit [Carbonado] [OtsCodec] in
theorem moveOrderKey_carbonado {dir moved : DataDir} {staged : StagedUpgrade}
    (h : moveOrderKey dir staged = .ok moved) : moved.carbonado = dir.carbonado := by
  unfold moveOrderKey at h
  split at h
  · cases h
    rfl
  · obtain ⟨store, -, hmoved⟩ := bind_eq_ok.mp h
    cases hmoved
    rfl

omit [Carbonado] in
theorem applyUpgrade_carbonado (dir : DataDir) (staged : StagedUpgrade) (env : UpgradeEnv) :
    (applyUpgrade dir staged env).2.carbonado = dir.carbonado := by
  unfold applyUpgrade
  split
  · split
    · rfl
    · rename_i moved hmove
      rw [recordUpgrade_carbonado, moveOrderKey_carbonado hmove]
  split
  · rfl
  split
  · rfl
  dsimp only
  split
  · rfl
  rename_i moved hmove
  have hmoved := moveOrderKey_carbonado hmove
  have hpublish : (publishUpgrade moved staged env).2.carbonado = moved.carbonado := by
    unfold publishUpgrade
    dsimp only
    split
    · rfl
    split
    · rfl
    split <;> rfl
  rcases hrun : publishUpgrade moved staged env with ⟨result, dir'⟩
  rw [hrun] at hpublish
  cases result with
  | error err => exact hpublish.trans hmoved
  | ok _ =>
    dsimp only
    rw [recordUpgrade_carbonado]
    exact hpublish.trans hmoved

end

variable [Digests] [OtsCodec]

omit [Carbonado] in
theorem timestampCommitment_carbonado (dir : DataDir) (baoRootHex : String)
    (options : TimestampOptions) (env : TimestampEnv) :
    (timestampCommitment dir baoRootHex options env).2.carbonado = dir.carbonado := by
  have hrun := timestampCommitment_run dir baoRootHex options env
  cases hout : timestampCommitment dir baoRootHex options env with
  | mk outcome dir' =>
  rw [hout] at hrun
  cases hrun with
  | rejected => rfl
  | repaired baoRoot row =>
    show (repairBrecciaFromMeta dir baoRootHex row env.breccia).2.carbonado = dir.carbonado
    unfold repairBrecciaFromMeta
    split
    · rfl
    split
    · rfl
    dsimp only
    split <;> rfl
  | written staged pending =>
    exact finishTimestamp_carbonado { dir with pendingOts := pending } staged env

omit [Carbonado] in
theorem upgradeCommitment_carbonado (dir : DataDir) (baoRootHex calendarUpgradeUrl : String)
    (env : UpgradeEnv) :
    (upgradeCommitment dir baoRootHex calendarUpgradeUrl env).2.carbonado = dir.carbonado := by
  unfold upgradeCommitment
  split
  · rfl
  · exact applyUpgrade_carbonado dir _ env

/-! ### Runs -/

/-- The call reads this plaintext to encode it. -/
def Reads (call : StoreCall) (plaintext : Bytes) : Prop :=
  match call with
  | .encodeFile env options => readPlaintext env options = .ok plaintext
  | .createFilepack env _ => ∃ files file, env.walk = .ok files ∧ file ∈ files ∧
      file.content = .ok plaintext
  | .timestamp .. => False
  | .upgrade .. => False

theorem Servable.exec (laws : stages.Laws) (h : Servable served dir) {call : StoreCall}
    (hreads : ∀ plaintext, Reads call plaintext → served plaintext) :
    Servable served (call.exec dir) := by
  cases call with
  | encodeFile env options => exact h.encodeFile laws env options hreads
  | createFilepack env options =>
    exact h.createFilepack laws env options fun files hwalk file hfile plaintext hcontent =>
      hreads plaintext ⟨files, file, hwalk, hfile, hcontent⟩
  | timestamp baoRootHex options env =>
    exact h.of_rows (timestampCommitment_carbonado dir baoRootHex options env)
      (timestampCommitment_writes dir baoRootHex options env).map_asEncoded
  | upgrade baoRootHex calendarUpgradeUrl env =>
    exact h.of_rows (upgradeCommitment_carbonado dir baoRootHex calendarUpgradeUrl env)
      (upgradeCommitment_writes dir baoRootHex calendarUpgradeUrl env).map_asEncoded

/-- The state behind calls on a directory without commitments. -/
def afterCalls (dir : DataDir) (calls : List StoreCall) : DataDir :=
  run StoreCall.exec { dir with store := .empty, carbonado := fun _ => none } calls

/-- Some call of the list reads this plaintext to encode it. -/
def ReadBySome (calls : List StoreCall) (plaintext : Bytes) : Prop :=
  ∃ call ∈ calls, Reads call plaintext

theorem servable_afterCalls (laws : stages.Laws) (dir : DataDir) (calls : List StoreCall) :
    Servable (ReadBySome calls) (afterCalls dir calls) := by
  have halways : Always StoreCall.exec (Servable (ReadBySome calls))
      { dir with store := .empty, carbonado := fun _ => none } calls :=
    always_of_keeps (fun _ call hcall hs => hs.exec laws fun _ hreads => ⟨call, hcall, hreads⟩)
      (Servable.empty _ dir)
  exact halways calls (List.prefix_refl calls)

/-- The sizes that content is served for. -/
def Fits (stages : Stages) (plaintext encoded nonce : Bytes) (format : UInt8) : Prop :=
  encoded.length ≤ maxEncodedBytesForDecode defaultMaxDecodedPayloadBytes ∧
    stages.Readable plaintext format nonce defaultMaxDecodedPayloadBytes ∧
    plaintext.length ≤ defaultMaxDecodedPayloadBytes

/-- The answers to content that does not fit. -/
def sizeErrors (maxBytes maxEncoded : Nat) : List ServerError :=
  [.badRequest s!"carbonado file exceeds maximum encoded size of {maxEncoded} bytes",
    corruptContent,
    .badRequest s!"decoded payload exceeds maximum size of {maxBytes} bytes"]

omit [Carbonado] [Digests] [OtsCodec] in
theorem decodeErrorToServerError_mem_sizeErrors {err : DecodeError} {maxBytes maxEncoded size : Nat}
    {carbonadoPath : String}
    (h : err = .encodedFileTooLarge size maxEncoded ∨ err = .corruptPayload ∨
      err = .oversized maxBytes) :
    decodeErrorToServerError err carbonadoPath ∈ sizeErrors maxBytes maxEncoded := by
  rcases h with rfl | rfl | rfl <;> simp [sizeErrors, decodeErrorToServerError]

/-- How a request for the content of a root is answered: not found without a row, forbidden for a
private format, and otherwise the plaintext that a call sealed under the root, or an error about its
size. -/
def ServesContent (stages : Stages) (decimalNumber : Char → Bool) (calls : List StoreCall)
    (dir : DataDir) (id : String) (baoRoot : Bytes32) : Prop :=
  (dir.store.getCommitment baoRoot = none →
    content decimalNumber dir (.ok dir.store) id =
      .error (.notFound s!"commitment {id} not found")) ∧
  ∀ row, dir.store.getCommitment baoRoot = some row →
    (row.format % 2 ≠ 0 →
      content decimalNumber dir (.ok dir.store) id = .error privateContent) ∧
    (row.format % 2 = 0 → ∃ plaintext nonce encoded, ReadBySome calls plaintext ∧
      sealPlaintext publicMasterKey plaintext row.format nonce = .ok (encoded, baoRoot) ∧
      (Fits stages plaintext encoded nonce row.format →
        content decimalNumber dir (.ok dir.store) id =
          .ok ⟨contentTypeForDecodedPayload plaintext, plaintext⟩) ∧
      (¬Fits stages plaintext encoded nonce row.format →
        ∃ err ∈ sizeErrors defaultMaxDecodedPayloadBytes
            (maxEncodedBytesForDecode defaultMaxDecodedPayloadBytes),
          content decimalNumber dir (.ok dir.store) id = .error err))

/-- Behind every run, whatever its calls return, public content is served as it was encoded. -/
theorem content_served (laws : stages.Laws) (decimalNumber : Char → Bool) (dir : DataDir)
    (calls : List StoreCall) {id : String} {baoRoot : Bytes32}
    (hid : Hex.decode id = some baoRoot.val) :
    ServesContent stages decimalNumber calls (afterCalls dir calls) id baoRoot := by
  have hservable := servable_afterCalls laws dir calls
  generalize afterCalls dir calls = last at hservable
  have hcontent : content decimalNumber last (.ok last.store) id =
      commitmentContent last (.ok last.store) id := by
    rw [content, not_isInscriptionId hid]
    rfl
  rw [ServesContent, hcontent]
  unfold commitmentContent
  rw [parseBaoRootHex_eq hid]
  dsimp only
  refine ⟨fun hnone => by rw [hnone], fun row hrow => ?_⟩
  obtain ⟨hvisibility, hpath, hsome⟩ := hservable.rows baoRoot row hrow
  rw [hrow]
  dsimp only
  refine ⟨fun hodd => if_pos (.inr hodd), fun heven => ?_⟩
  have hpublic : ¬(row.visibility = .priv ∨ row.format % 2 ≠ 0) := by
    rw [hvisibility, Visibility.fromFormat, if_pos heven]
    rintro (hpriv | hodd)
    · cases hpriv
    · exact hodd heven
  rw [if_neg hpublic]
  obtain ⟨encoded, hfile⟩ := Option.isSome_iff_exists.mp hsome
  obtain ⟨masterKey, plaintext, nonce, hread, hkey, hseal⟩ :=
    hservable.files baoRoot row.format encoded (hpath ▸ hfile)
  obtain rfl := hkey heven
  refine ⟨plaintext, nonce, encoded, hread, hseal, ?_⟩
  rcases decode_sealed laws defaultMaxDecodedPayloadBytes heven hpath hfile hseal with
    ⟨hsize, hreadable, hlength, hdecode⟩ | ⟨hnot, err, hdecode, herr⟩
  · rw [hdecode]
    exact ⟨fun _ => rfl, fun hnot => absurd ⟨hsize, hreadable, hlength⟩ hnot⟩
  · rw [hdecode]
    exact ⟨fun hfits => absurd hfits hnot,
      fun _ => ⟨_, decodeErrorToServerError_mem_sizeErrors herr, rfl⟩⟩

end

/-! ### A run -/

section

attribute [local instance] plainCodec Format.sha256Digests Format.sha256Codec

/-- A file in a public format, under the root that the codec gives every file. -/
theorem content_served_example :
    ServesContent plainStages (fun c => c.isDigit)
      [.encodeFile clearEnv ⟨0, .inboard, none, some (List.replicate 8 0)⟩]
      (afterCalls emptyDir [.encodeFile clearEnv ⟨0, .inboard, none, some (List.replicate 8 0)⟩])
      (Hex.encode (plainHeader 0).hash.val) (plainHeader 0).hash :=
  content_served plainCodec_laws _ emptyDir _ (Hex.decode_encode _)

end

end Lord.Server
