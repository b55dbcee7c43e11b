import Lord.Lib.Decimal
import Lord.Storage.Decode

/-! Which encoded contents are decoded again: the guard in front of the codec reads a length that only
some formats write, and that counts the input of Bao. -/

namespace Lord.Storage

/-! ### The codec -/

/-- The stages of `file::encode`, and which formats have them. -/
structure Stages where
  compresses : UInt8 → Bool
  encrypts : UInt8 → Bool
  corrects : UInt8 → Bool
  compress : Bytes → Bytes
  encrypt : Bytes32 → Bytes → Bytes → Bytes
  /-- Zfec. -/
  correct : Bytes → Bytes
  /-- The response of Bao behind the length of its input. -/
  baoResponse : UInt8 → Bytes → Bytes

section

variable [Carbonado] (stages : Stages)

namespace Stages

/-- What the stages in front of Bao make of a plaintext. -/
def baoInput (masterKey : Bytes32) (plaintext : Bytes) (format : UInt8) (nonce : Bytes) : Bytes :=
  let compressed := if stages.compresses format then stages.compress plaintext else plaintext
  let encrypted := if stages.encrypts format then stages.encrypt masterKey nonce compressed
    else compressed
  if stages.corrects format then stages.correct encrypted else encrypted

/-- The body of a container. -/
def body (masterKey : Bytes32) (plaintext : Bytes) (format : UInt8) (nonce : Bytes) : Bytes :=
  let input := stages.baoInput masterKey plaintext format nonce
  if Carbonado.containsVerification format then
    LittleEndian.encode 8 input.length ++ stages.baoResponse format input
  else
    input

/-- What is documented of the codec: a container is a header and the body that the stages make, the
header tells its format and has its MAC, and the decoder inverts the encoder. -/
structure Laws : Prop where
  encodeBaoHash : ∀ root, Carbonado.encodeBaoHash root = Hex.encode root.val
  layout : ∀ {masterKey plaintext format nonce encoded},
    Carbonado.encode masterKey plaintext format nonce = .ok encoded →
    ∃ head : Bytes, encoded = head ++ stages.body masterKey plaintext format nonce ∧
      head.length = Carbonado.headerLen
  length_lt : ∀ {masterKey plaintext format nonce encoded},
    Carbonado.encode masterKey plaintext format nonce = .ok encoded →
    (stages.baoInput masterKey plaintext format nonce).length < 2 ^ 64
  header : ∀ {masterKey plaintext format nonce encoded header},
    Carbonado.encode masterKey plaintext format nonce = .ok encoded →
    Carbonado.header encoded = .ok header →
    header.format = format ∧
      Carbonado.computeHeaderMac masterKey header.authData = .ok header.headerMac ∧
      Carbonado.decode masterKey encoded = .ok (header, plaintext)
  correct_length : ∀ input, 2 * input.length ≤ (stages.correct input).length

/-- The guard lets the body through: the input of Bao is no longer than the cap, or, without Bao, the
body has eight bytes that read as a length within the cap. -/
def Readable (plaintext : Bytes) (format : UInt8) (nonce : Bytes) (maxDecodedBytes : Nat) : Prop :=
  let input := stages.baoInput publicMasterKey plaintext format nonce
  if Carbonado.containsVerification format then
    input.length ≤ maxDecodedBytes
  else
    8 ≤ input.length ∧ LittleEndian.decode (input.take 8) ≤ maxDecodedBytes

/-- With Zfec and Bao, plaintexts over half of the cap are refused. -/
theorem Laws.not_readable_of_half {stages : Stages} (laws : stages.Laws) {plaintext nonce : Bytes}
    {format : UInt8} {maxDecodedBytes : Nat} (hbao : Carbonado.containsVerification format = true)
    (hzfec : stages.corrects format = true) (hcompress : stages.compresses format = false)
    (hencrypt : stages.encrypts format = false) (hhalf : maxDecodedBytes < 2 * plaintext.length) :
    ¬stages.Readable plaintext format nonce maxDecodedBytes := by
  have hlength := laws.correct_length plaintext
  simp only [Readable, baoInput, hbao, hzfec, hcompress, hencrypt, if_true, Bool.false_eq_true,
    if_false]
  omega

/-- The guard on the body of a container. -/
theorem readable_iff {plaintext nonce : Bytes} {format : UInt8} {maxDecodedBytes : Nat}
    (hlength : (stages.baoInput publicMasterKey plaintext format nonce).length < 2 ^ 64) :
    stages.Readable plaintext format nonce maxDecodedBytes ↔
      ∃ contentLen, readBaoContentLen (stages.body publicMasterKey plaintext format nonce) =
        .ok contentLen ∧ contentLen ≤ maxDecodedBytes := by
  unfold Readable body
  dsimp only
  generalize stages.baoInput publicMasterKey plaintext format nonce = input at *
  split
  · have htake : (LittleEndian.encode 8 input.length ++ stages.baoResponse format input).take 8 =
        LittleEndian.encode 8 input.length := by
      rw [List.take_append_of_le_length (by simp), List.take_of_length_le (by simp)]
    rw [readBaoContentLen, if_neg (by simp), htake, LittleEndian.decode_encode (by omega)]
    simp
  · rw [readBaoContentLen]
    split
    · rename_i hshort
      exact iff_of_false (fun h => absurd h.1 (by omega)) (fun ⟨_, h, _⟩ => nomatch h)
    · rename_i hlong
      constructor
      · exact fun h => ⟨_, rfl, h.2⟩
      · rintro ⟨contentLen, h, hle⟩
        cases h
        exact ⟨by omega, hle⟩

end Stages

end

/-! ### Names -/

theorem containsDotDot_cons {c : Char} (h : c ≠ '.') (rest : List Char) :
    containsDotDot (c :: rest) = containsDotDot rest := by
  rw [containsDotDot]
  rintro _ rfl
  exact absurd rfl h

theorem containsDotDot_of_not_mem {chars : List Char} (h : '.' ∉ chars) :
    containsDotDot chars = false := by
  induction chars with
  | nil => rfl
  | cons c rest ih =>
    rw [List.mem_cons, not_or] at h
    rw [containsDotDot_cons (Ne.symm h.1), ih h.2]

theorem containsDotDot_append {front : List Char} (h : '.' ∉ front) (back : List Char) :
    containsDotDot (front ++ back) = containsDotDot back := by
  induction front with
  | nil => rfl
  | cons c rest ih =>
    rw [List.mem_cons, not_or] at h
    rw [List.cons_append, containsDotDot_cons (Ne.symm h.1), ih h.2]

/-- A character that is no hexadecimal digit is not in hexadecimal text. -/
theorem not_mem_hex {c : Char} (h : Hex.digitValue c = none) (bytes : Bytes) :
    c ∉ (Hex.encode bytes).toList := by
  intro hc
  rw [Hex.encode, String.toList_ofList] at hc
  have hsome := (Hex.ofDigits_some (Hex.ofDigits_digits bytes)).2 c hc
  rw [h] at hsome
  cases hsome

theorem toList_relativePath (hex : String) (format : UInt8) :
    (DataDir.carbonadoRelativePath hex format).toList =
      hex.toList ++ '.' :: 'c' :: (toString format.toNat).toList := by
  simp only [DataDir.carbonadoRelativePath, String.toList_append]
  rw [List.append_assoc]
  rfl

/-- The name of a container passes the check of stored names. -/
theorem validate_relativePath (root : Bytes32) (format : UInt8) :
    validateCarbonadoRelativePath
      (DataDir.carbonadoRelativePath (Hex.encode root.val) format) = .ok () := by
  have hlist := toList_relativePath (Hex.encode root.val) format
  generalize DataDir.carbonadoRelativePath (Hex.encode root.val) format = path at hlist
  have hdigits : ∀ {c : Char}, c.isDigit = false → c ∉ (toString format.toNat).toList := by
    intro c hc hmem
    rw [Decimal.isDigit_of_mem_toString hmem] at hc
    cases hc
  have hmem : ∀ {c : Char}, Hex.digitValue c = none → c.isDigit = false → c ≠ '.' → c ≠ 'c' →
      c ∉ path.toList := by
    intro c hhex hdigit hdot hc
    rw [hlist, List.mem_append, List.mem_cons, List.mem_cons]
    rintro (hin | rfl | rfl | hin)
    · exact not_mem_hex hhex _ hin
    · exact hdot rfl
    · exact hc rfl
    · exact hdigits hdigit hin
  have hdots : containsDotDot path.toList = false := by
    rw [hlist, containsDotDot_append (not_mem_hex (by decide) _)]
    show containsDotDot ('c' :: (toString format.toNat).toList) = false
    rw [containsDotDot_cons (by decide), containsDotDot_of_not_mem (hdigits (by decide))]
  have hempty : path.toList.isEmpty = false := by
    rw [hlist]
    cases (Hex.encode root.val).toList <;> rfl
  have hsingle : path ≠ "." := by
    rintro rfl
    have hlength := congrArg List.length hlist
    simp at hlength
    omega
  rw [validateCarbonadoRelativePath, hempty, hdots, if_neg (by simp), if_neg (by simp), if_neg,
    if_neg hsingle]
  rintro (hslash | hslash)
  · exact hmem (by decide) (by decide) (by decide) (by decide) hslash
  · exact hmem (by decide) (by decide) (by decide) (by decide) hslash

/-- The file of a container is neither that of a plaintext nor one that is not published yet. -/
theorem relativePath_ne (root : Bytes32) (format : UInt8) :
    DataDir.carbonadoRelativePath (Hex.encode root.val) format ≠
        s!"{Hex.encode root.val}.plain" ∧
      ∀ name, DataDir.carbonadoRelativePath (Hex.encode root.val) format ≠ tempName name := by
  have hlist := toList_relativePath (Hex.encode root.val) format
  constructor
  · intro h
    rw [h, String.toList_append] at hlist
    have hback := List.append_cancel_left hlist
    have hplain : (toString ".plain").toList = ['.', 'p', 'l', 'a', 'i', 'n'] := rfl
    rw [hplain] at hback
    simp at hback
  · intro name h
    rw [h] at hlist
    have hhead : (tempName name).toList.head? = some '.' := by
      rw [tempName, String.toList_append, String.toList_append]
      rfl
    rw [hlist] at hhead
    cases hhex : (Hex.encode root.val).toList with
    | nil =>
      have hlength := (Hex.ofDigits_some (Hex.ofDigits_digits root.val)).1
      rw [Hex.encode, String.toList_ofList] at hhex
      rw [hhex, root.property] at hlength
      cases hlength
    | cons c rest =>
      rw [hhex, List.cons_append, List.head?_cons, Option.some.injEq] at hhead
      have hc : '.' ∈ (Hex.encode root.val).toList := by
        rw [hhex, hhead]
        exact List.mem_cons_self
      exact not_mem_hex (by decide) _ hc

/-! ### Containers that are published -/

theorem renameFile_dst (files : String → Option Bytes) (src dst : String) (data : Bytes) :
    renameFile files src dst data dst = some data := writeFile_same _ dst data

theorem renameFile_of_ne (files : String → Option Bytes) {src dst name : String} (data : Bytes)
    (hsrc : name ≠ src) (hdst : name ≠ dst) : renameFile files src dst data name = files name := by
  simp [renameFile, writeFile, removeFile, hsrc, hdst]

section

variable [Carbonado] {stages : Stages}

/-- A container that is published lies below its name, and its row is stored. -/
theorem publishEncoded_published (laws : stages.Laws) {dir dir' : DataDir} {env : EncodeEnv}
    {options : EncodeOptions} {plaintext encoded : Bytes} {baoRoot : Bytes32} {result : EncodeResult}
    (h : publishEncoded dir env options plaintext encoded baoRoot = (.ok result, dir')) :
    result.baoRoot = Hex.encode baoRoot.val ∧
      dir'.carbonado (DataDir.carbonadoRelativePath (Hex.encode baoRoot.val) options.format) =
        some encoded ∧
      ∃ createdAt, dir'.store = dir.store.putCommitment (.new baoRoot
        (DataDir.carbonadoRelativePath (Hex.encode baoRoot.val) options.format) options.format
        options.layout createdAt) := by
  obtain ⟨hplain, htemp⟩ := relativePath_ne baoRoot options.format
  unfold publishEncoded at h
  rw [laws.encodeBaoHash] at h
  dsimp only at h
  split at h
  · cases h
  split at h
  · cases h
  split at h
  · cases h
  split at h
  · cases h
  split at h
  · cases h
  split at h
  · cases h
  obtain ⟨hresult, rfl⟩ := Prod.mk.inj h
  cases hresult
  refine ⟨rfl, ?_, _, rfl⟩
  dsimp only
  split
  · rw [renameFile_of_ne _ plaintext (htemp _) hplain, renameFile_dst]
  · rw [renameFile_dst]

/-- What an encode of a public format leaves. -/
theorem encodeFileWithStore_published (laws : stages.Laws) {dir dir' : DataDir} {env : EncodeEnv}
    {options : EncodeOptions} {plaintext : Bytes} {result : EncodeResult}
    (heven : options.format % 2 = 0) (hread : readPlaintext env options = .ok plaintext)
    (h : encodeFileWithStore dir env options = (.ok result, dir')) :
    ∃ encoded header, Carbonado.encode publicMasterKey plaintext options.format env.nonce =
        .ok encoded ∧ Carbonado.header encoded = .ok header ∧
      result.baoRoot = Hex.encode header.hash.val ∧
      dir'.carbonado (DataDir.carbonadoRelativePath (Hex.encode header.hash.val) options.format) =
        some encoded ∧
      ∃ createdAt, dir'.store = dir.store.putCommitment (.new header.hash
        (DataDir.carbonadoRelativePath (Hex.encode header.hash.val) options.format) options.format
        options.layout createdAt) := by
  have hkey : masterKeyForFormat options.format dir env.keyFile options.masterKeyHex =
      (.ok publicMasterKey, dir) := by
    rw [masterKeyForFormat, if_pos heven]
  rw [encodeFileWithStore, hread, hkey] at h
  split at h
  · cases h
  dsimp only at h
  split at h
  · cases h
  rename_i encoded baoRoot hseal
  obtain ⟨encoded', hencode, hseal⟩ := bind_eq_ok.mp hseal
  obtain ⟨header, hheader, hseal⟩ := bind_eq_ok.mp hseal
  cases hseal
  rw [Result.context_eq_ok] at hencode hheader
  exact ⟨encoded, header, hencode, hheader, publishEncoded_published laws h⟩

/-- A public commitment that was encoded decodes to its plaintext exactly when the guard in front of the
codec lets its body through. -/
theorem content_decodes_iff (laws : stages.Laws) {dir dir' : DataDir} {env : EncodeEnv}
    {options : EncodeOptions} {plaintext : Bytes} {result : EncodeResult} {baoRoot : Bytes32}
    {row : CommitmentMeta} {maxDecodedBytes : Nat} (heven : options.format % 2 = 0)
    (hread : readPlaintext env options = .ok plaintext)
    (hencode : encodeFileWithStore dir env options = (.ok result, dir'))
    (hroot : result.baoRoot = Hex.encode baoRoot.val)
    (hrow : dir'.store.getCommitment baoRoot = some row)
    (hdecoded : plaintext.length ≤ maxDecodedBytes)
    (hencoded : ∀ encoded, dir'.carbonado row.carbonadoPath = some encoded →
      encoded.length ≤ maxEncodedBytesForDecode maxDecodedBytes) :
    decodePublicCommitmentContent dir' row baoRoot maxDecodedBytes = .ok plaintext ↔
      stages.Readable plaintext options.format env.nonce maxDecodedBytes := by
  obtain ⟨encoded, header, hcodec, hheader, hresult, hfile, createdAt, hstore⟩ :=
    encodeFileWithStore_published laws heven hread hencode
  obtain rfl : header.hash = baoRoot :=
    Subtype.ext (Hex.encode_injective (hresult.symm.trans hroot))
  rw [hstore] at hrow
  have hnew := Option.some.inj
    (hrow.symm.trans (StorageStore.getCommitment_putCommitment_self dir.store _))
  have hpath : row.carbonadoPath =
      DataDir.carbonadoRelativePath (Hex.encode header.hash.val) options.format := by
    rw [hnew]
    rfl
  have hrowFormat : row.format = options.format := by
    rw [hnew]
    rfl
  obtain ⟨hformat, hmac, hdecode⟩ := laws.header hcodec hheader
  obtain ⟨head, hlayout, hhead⟩ := laws.layout hcodec
  have hbody : encoded.drop Carbonado.headerLen =
      stages.body publicMasterKey plaintext options.format env.nonce := by
    rw [hlayout, List.drop_left' hhead]
  have hauth : authenticateHeader publicMasterKey header = .ok () := by
    rw [authenticateHeader, hmac]
    exact if_pos (constantTimeEq_refl _)
  have hlength := hencoded encoded (by rw [hpath]; exact hfile)
  rw [stages.readable_iff (laws.length_lt hcodec), ← hbody]
  unfold decodePublicCommitmentContent decodePublicCommitmentContentWithEncodedCap
  rw [hpath, hrowFormat, validate_relativePath, readCarbonadoFile, hfile]
  dsimp only
  have hpublic : ¬options.format % 2 ≠ 0 := not_not.mpr heven
  have hbound : ¬header.hash ≠ header.hash := not_not.mpr rfl
  have hsame : ¬header.format ≠ options.format := not_not.mpr hformat
  rw [if_neg hpublic, if_neg (Nat.not_lt.mpr hlength), ok_bind, hheader]
  dsimp only
  rw [if_neg hbound, if_neg hsame, hauth]
  dsimp only
  cases hguard : readBaoContentLen (encoded.drop Carbonado.headerLen) with
  | error err => exact iff_of_false (fun h => nomatch h) (fun ⟨_, h, _⟩ => nomatch h)
  | ok contentLen =>
    dsimp only
    by_cases hle : contentLen ≤ maxDecodedBytes
    · rw [if_neg (Nat.not_lt.mpr hle), hdecode]
      dsimp only
      rw [if_neg hbound, if_neg (Nat.not_lt.mpr hdecoded)]
      exact iff_of_true rfl ⟨contentLen, rfl, hle⟩
    · rw [if_pos (Nat.not_le.mp hle)]
      refine iff_of_false (fun h => nomatch h) ?_
      rintro ⟨contentLen', h, hle'⟩
      cases h
      exact hle hle'

end

/-! ### A codec -/

/-- A header whose root is always the same. -/
def plainHeader (format : UInt8) : Header where
  payloadNonce := []
  hash := Bytes32.replicate 7
  slhPublicKey := []
  format
  chunkIndex := [0]
  encodedLen := 0
  paddingLen := 0
  metadata := none
  headerMac := [1]

/-- Stages that neither compress nor encrypt; Zfec writes its input twice. -/
def plainStages : Stages where
  compresses format := format &&& 2 != 0
  encrypts format := format &&& 1 != 0
  corrects format := format &&& 8 != 0
  compress := id
  encrypt _ _ := id
  correct input := input ++ input
  baoResponse _ := id

/-- The codec of these stages, with a header of one byte. -/
@[reducible]
def plainCodec : Carbonado where
  magicno := [67]
  headerLen := 1
  sliceLen := 1024
  sliceLen_pos := by decide
  header bytes := match bytes with
    | [] => .error "truncated header"
    | format :: _ => .ok (plainHeader format)
  encode _ plaintext format _ :=
    let input := if format &&& 8 != 0 then plaintext ++ plaintext else plaintext
    if 2 ^ 63 ≤ plaintext.length then .error "plaintext is too long"
    else .ok (format :: (if format &&& 4 != 0 then LittleEndian.encode 8 input.length ++ input else input))
  decode _ bytes := match bytes with
    | [] => .error "truncated header"
    | format :: body =>
      let input := if format &&& 4 != 0 then body.drop 8 else body
      .ok (plainHeader format, if format &&& 8 != 0 then input.take (input.length / 2) else input)
  verifySlice _ _ _ _ := .ok ()
  computeHeaderMac _ _ := .ok [1]
  containsVerification format := format &&& 4 != 0
  encodeBaoHash root := Hex.encode root.val

section

attribute [local instance] plainCodec

theorem plainCodec_laws : plainStages.Laws := by
  have hinput : ∀ (masterKey : Bytes32) (plaintext : Bytes) (format : UInt8) (nonce : Bytes),
      plainStages.baoInput masterKey plaintext format nonce =
        if format &&& 8 != 0 then plaintext ++ plaintext else plaintext := by
    intro masterKey plaintext format nonce
    simp [Stages.baoInput, plainStages]
  have hencode : ∀ {masterKey : Bytes32} {plaintext : Bytes} {format : UInt8}
      {nonce encoded : Bytes}, Carbonado.encode masterKey plaintext format nonce = .ok encoded →
      plaintext.length < 2 ^ 63 ∧
        encoded = format :: plainStages.body masterKey plaintext format nonce := by
    intro masterKey plaintext format nonce encoded h
    change (if 2 ^ 63 ≤ plaintext.length then Except.error _ else _) = _ at h
    split at h
    · cases h
    · rename_i hshort
      cases h
      rw [Stages.body, hinput]
      exact ⟨Nat.not_le.mp hshort, rfl⟩
  refine ⟨fun _ => rfl, ?_, ?_, ?_, ?_⟩
  · intro masterKey plaintext format nonce encoded h
    exact ⟨[format], (hencode h).2, rfl⟩
  · intro masterKey plaintext format nonce encoded h
    have hshort := (hencode h).1
    rw [hinput]
    split
    · rw [List.length_append]
      omega
    · omega
  · intro masterKey plaintext format nonce encoded header h hheader
    obtain ⟨-, rfl⟩ := hencode h
    cases hheader
    refine ⟨rfl, rfl, ?_⟩
    have hhalf : (plaintext ++ plaintext).take ((plaintext ++ plaintext).length / 2) = plaintext := by
      rw [List.length_append, ← Nat.two_mul, Nat.mul_div_cancel_left _ (by decide), List.take_left]
    have hbody : (if format &&& 4 != 0 then
        (plainStages.body masterKey plaintext format nonce).drop 8
        else plainStages.body masterKey plaintext format nonce) =
        if format &&& 8 != 0 then plaintext ++ plaintext else plaintext := by
      rw [Stages.body, hinput]
      have hverified : Carbonado.containsVerification format = (format &&& 4 != 0) := rfl
      rw [hverified]
      split
      · rw [List.drop_left' (LittleEndian.length_encode 8 _)]
        rfl
      · rfl
    have hdecode : Carbonado.decode masterKey
        (format :: plainStages.body masterKey plaintext format nonce) =
        let input := if format &&& 4 != 0 then
          (plainStages.body masterKey plaintext format nonce).drop 8
          else plainStages.body masterKey plaintext format nonce
        .ok (plainHeader format,
          if format &&& 8 != 0 then input.take (input.length / 2) else input) := rfl
    rw [hdecode, hbody]
    split
    · dsimp only
      rw [hhalf]
    · rfl
  · intro input
    simp [plainStages]
    omega

/-- Nothing fails. -/
def clearEnv : EncodeEnv where
  inputPath := "input"
  input := .error "unused"
  keyFile := ⟨.ok (), .error "unused", .ok (), none, .ok (), 0o100600⟩
  nonce := []
  createCarbonadoDir := .ok ()
  writeCarbonado := .ok ()
  writePlain := .ok ()
  now := .ok 0
  publishCarbonado := .ok ()
  publishPlain := .ok ()

def emptyDir : DataDir where
  path := "/data"
  store := StorageStore.empty
  masterKey := none
  carbonado := fun _ => none
  ots := fun _ => none
  pendingOts := fun _ => none
  breccia := none

/-- What decoding an encoded plaintext gives. -/
def decodeEncoded (format : UInt8) (plaintext : Bytes) (maxDecodedBytes : Nat) :
    Option (Except DecodeError Bytes) :=
  let dir := (encodeFileWithStore emptyDir clearEnv ⟨format, .inboard, none, some plaintext⟩).2
  (dir.store.getCommitment (plainHeader format).hash).map fun row =>
    decodePublicCommitmentContent dir row (plainHeader format).hash maxDecodedBytes

/-- Six bytes within a cap of ten in format c12, and three bytes without Bao in format c0. -/
theorem refused_contents :
    decodeEncoded 12 [1, 2, 3, 4, 5, 6] 10 = some (.error (.oversized 10)) ∧
      decodeEncoded 0 [1, 2, 3] 10 = some (.error .corruptPayload) := by
  decide +kernel

/-- Eight bytes in format c0. -/
theorem content_decodes_example :
    let dir := (encodeFileWithStore emptyDir clearEnv
      ⟨0, .inboard, none, some (List.replicate 8 0)⟩).2
    decodePublicCommitmentContent dir (.new (plainHeader 0).hash
        (DataDir.carbonadoRelativePath (Hex.encode (plainHeader 0).hash.val) 0) 0 .inboard 0)
        (plainHeader 0).hash 10 = .ok (List.replicate 8 0) ↔
      plainStages.Readable (List.replicate 8 0) 0 [] 10 := by
  intro dir
  have hencode : encodeFileWithStore emptyDir clearEnv
      ⟨0, .inboard, none, some (List.replicate 8 0)⟩ =
        (.ok ⟨Hex.encode (plainHeader 0).hash.val,
          DataDir.carbonadoRelativePath (Hex.encode (plainHeader 0).hash.val) 0, 0, .inboard, .pub,
          none⟩, dir) := Prod.ext rfl rfl
  refine content_decodes_iff plainCodec_laws rfl rfl hencode rfl ?_ (by decide) ?_
  · exact StorageStore.getCommitment_putCommitment_self _ _
  · intro encoded h
    have hfile : dir.carbonado (DataDir.carbonadoRelativePath (Hex.encode (plainHeader 0).hash.val) 0) =
        some (0 :: List.replicate 8 0) := by decide +kernel
    cases hfile.symm.trans h
    decide

end

end Lord.Storage
