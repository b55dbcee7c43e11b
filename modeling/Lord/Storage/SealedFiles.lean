import Lord.Storage.DecodeRoundTrip
import Lord.Storage.Filepack

/-! The container files of a data directory: which of them an encode writes, and what a node decodes
from one of them. -/

namespace Lord.Storage

/-- The file of a container. -/
def containerName (baoRoot : Bytes32) (format : UInt8) : String :=
  DataDir.carbonadoRelativePath (Hex.encode baoRoot.val) format

theorem length_hex (baoRoot : Bytes32) : (Hex.encode baoRoot.val).toList.length = 64 := by
  have hlength := (Hex.ofDigits_some (Hex.ofDigits_digits baoRoot.val)).1
  rw [baoRoot.property] at hlength
  rw [Hex.encode, String.toList_ofList]
  omega

/-- A container has its own file. -/
theorem containerName_inj {a b : Bytes32} {f g : UInt8}
    (h : containerName a f = containerName b g) : a = b ∧ f = g := by
  have hlist := congrArg String.toList h
  rw [containerName, containerName, toList_relativePath, toList_relativePath] at hlist
  obtain ⟨hhex, hback⟩ := List.append_inj hlist ((length_hex a).trans (length_hex b).symm)
  simp only [List.cons.injEq, true_and] at hback
  have hf := Decimal.parse_toString (show f.toNat < 2 ^ 8 from f.toNat_lt)
  rw [hback, Decimal.parse_toString (show g.toNat < 2 ^ 8 from g.toNat_lt)] at hf
  exact ⟨Subtype.ext (Hex.encode_injective (String.toList_inj.mp hhex)),
    UInt8.toNat_inj.mp (Except.ok.inj hf).symm⟩

/-! ### Files that an encode writes -/

theorem masterKeyForFormat_carbonado (format : UInt8) (dir : DataDir) (env : KeyFileEnv)
    (masterKeyHex : Option String) :
    (masterKeyForFormat format dir env masterKeyHex).2.carbonado = dir.carbonado := by
  unfold masterKeyForFormat loadOrCreateMasterKey
  split
  · rfl
  split
  · rfl
  split
  · rfl
  split
  · rfl
  split
  · rfl
  split
  · rfl
  dsimp only
  split
  · rfl
  split <;> rfl

/-- Between two states of a directory, one container may be written, and its row behind it. -/
structure WritesContainer (dir dir' : DataDir) (baoRoot : Bytes32) (format : UInt8)
    (encoded : Bytes) : Prop where
  files : ∀ r f, dir'.carbonado (containerName r f) = dir.carbonado (containerName r f) ∨
    r = baoRoot ∧ f = format ∧ dir'.carbonado (containerName r f) = some encoded
  store : dir'.store = dir.store ∨
    dir'.carbonado (containerName baoRoot format) = some encoded ∧ ∃ layout createdAt,
      dir'.store = dir.store.putCommitment
        (.new baoRoot (containerName baoRoot format) format layout createdAt)

theorem WritesContainer.refl (dir : DataDir) (baoRoot : Bytes32) (format : UInt8)
    (encoded : Bytes) : WritesContainer dir dir baoRoot format encoded :=
  ⟨fun _ _ => .inl rfl, .inl rfl⟩

theorem containerName_ne_temp (name : String) (r : Bytes32) (f : UInt8) :
    containerName r f ≠ tempName name :=
  (relativePath_ne r f).2 name

/-- No container is published as the plaintext of a root. -/
theorem containerName_ne_plain (baoRoot r : Bytes32) (f : UInt8) :
    containerName r f ≠ s!"{Hex.encode baoRoot.val}.plain" := by
  intro h
  have hlist := congrArg String.toList h
  rw [containerName, toList_relativePath, String.toList_append] at hlist
  have hlengths : (Hex.encode r.val).toList.length = (toString (Hex.encode baoRoot.val)).toList.length :=
    (length_hex r).trans (length_hex baoRoot).symm
  obtain ⟨-, hback⟩ := List.append_inj hlist hlengths
  have hplain : (toString ".plain").toList = ['.', 'p', 'l', 'a', 'i', 'n'] := rfl
  rw [hplain] at hback
  simp at hback

/-- A file under a temporary name is no container. -/
theorem writeFile_temp (files : String → Option Bytes) (name : String) (data : Bytes) (r : Bytes32)
    (f : UInt8) :
    writeFile files (tempName name) data (containerName r f) = files (containerName r f) := by
  simp [writeFile, containerName_ne_temp name r f]

theorem renameFile_plain (files : String → Option Bytes) (baoRoot : Bytes32) (data : Bytes)
    (r : Bytes32) (f : UInt8) :
    renameFile files (tempName s!"{Hex.encode baoRoot.val}.plain") s!"{Hex.encode baoRoot.val}.plain"
      data (containerName r f) = files (containerName r f) :=
  renameFile_of_ne files data (containerName_ne_temp _ r f) (containerName_ne_plain baoRoot r f)

/-- The rename of a staged container touches no other one. -/
theorem renameFile_container (files : String → Option Bytes) (name : String) (baoRoot : Bytes32)
    (format : UInt8) (data : Bytes) (r : Bytes32) (f : UInt8) :
    renameFile files (tempName name) (containerName baoRoot format) data (containerName r f) =
        files (containerName r f) ∨
      r = baoRoot ∧ f = format ∧
        renameFile files (tempName name) (containerName baoRoot format) data (containerName r f) =
          some data := by
  by_cases hname : containerName r f = containerName baoRoot format
  · obtain ⟨rfl, rfl⟩ := containerName_inj hname
    exact .inr ⟨rfl, rfl, renameFile_dst files _ _ data⟩
  · exact .inl (renameFile_of_ne files data (containerName_ne_temp name r f) hname)

section

variable [Carbonado] {stages : Stages}

/-- A container that an encode made of such a plaintext, under the root of its header. -/
def Sealed (served : Bytes → Prop) (baoRoot : Bytes32) (format : UInt8) (encoded : Bytes) : Prop :=
  ∃ masterKey plaintext nonce, served plaintext ∧ (format % 2 = 0 → masterKey = publicMasterKey) ∧
    sealPlaintext masterKey plaintext format nonce = .ok (encoded, baoRoot)

theorem Sealed.mono {served served' : Bytes → Prop} {baoRoot : Bytes32} {format : UInt8} {encoded : Bytes}
    (h : Sealed served baoRoot format encoded) (hserved : ∀ bytes, served bytes → served' bytes) :
    Sealed served' baoRoot format encoded := by
  obtain ⟨masterKey, plaintext, nonce, hplain, hkey, hseal⟩ := h
  exact ⟨masterKey, plaintext, nonce, hserved plaintext hplain, hkey, hseal⟩

theorem publishEncoded_writes_container (laws : stages.Laws) (dir : DataDir) (env : EncodeEnv)
    (options : EncodeOptions) (plaintext encoded : Bytes) (baoRoot : Bytes32) :
    WritesContainer dir (publishEncoded dir env options plaintext encoded baoRoot).2 baoRoot
      options.format encoded := by
  have hname : DataDir.carbonadoRelativePath (Hex.encode baoRoot.val) options.format =
      containerName baoRoot options.format := rfl
  unfold publishEncoded
  rw [laws.encodeBaoHash]
  dsimp only
  simp only [hname]
  split
  · exact .refl dir baoRoot options.format encoded
  split
  · exact .refl dir baoRoot options.format encoded
  split
  · exact ⟨fun r f => .inl (writeFile_temp _ _ _ r f), .inl rfl⟩
  -- the plaintext beside the container is staged under a temporary name as well
  generalize hstaging : (if options.outboard then writeFile _ _ plaintext else _) = staged
  have hstaged : ∀ r f, staged (containerName r f) = dir.carbonado (containerName r f) := by
    intro r f
    rw [← hstaging]
    split
    · rw [writeFile_temp, writeFile_temp]
    · rw [writeFile_temp]
  split
  · exact ⟨fun r f => .inl (hstaged r f), .inl rfl⟩
  split
  · exact ⟨fun r f => .inl (hstaged r f), .inl rfl⟩
  have hpublished := fun r f => hstaged r f ▸
    renameFile_container staged (containerName baoRoot options.format) baoRoot options.format
      encoded r f
  split
  · exact ⟨hpublished, .inl rfl⟩
  generalize hplain : (if options.outboard then renameFile _ _ _ plaintext else _) = published
  have hdone : ∀ r f, published (containerName r f) = renameFile staged
      (tempName (containerName baoRoot options.format)) (containerName baoRoot options.format)
      encoded (containerName r f) := by
    intro r f
    rw [← hplain]
    split
    · exact renameFile_plain _ _ _ r f
    · rfl
  refine ⟨fun r f => ?_, .inr ⟨?_, _, _, rfl⟩⟩
  · dsimp only
    rw [hdone]
    exact hpublished r f
  · dsimp only
    rw [hdone, renameFile_dst]

/-- An encode writes the container of a plaintext that it read, or none. -/
theorem encodeFileWithStore_writes_container (laws : stages.Laws) (dir : DataDir) (env : EncodeEnv)
    (options : EncodeOptions) :
    ((encodeFileWithStore dir env options).2.store = dir.store ∧
        (encodeFileWithStore dir env options).2.carbonado = dir.carbonado) ∨
      ∃ plaintext encoded baoRoot, readPlaintext env options = .ok plaintext ∧
        Sealed (· = plaintext) baoRoot options.format encoded ∧
        WritesContainer dir (encodeFileWithStore dir env options).2 baoRoot options.format
          encoded := by
  unfold encodeFileWithStore
  split
  · exact .inl ⟨rfl, rfl⟩
  split
  · exact .inl ⟨rfl, rfl⟩
  rename_i plaintext hread
  have hstore := masterKeyForFormat_store options.format dir env.keyFile options.masterKeyHex
  have hcarbonado := masterKeyForFormat_carbonado options.format dir env.keyFile
    options.masterKeyHex
  have hpublic : options.format % 2 = 0 → (masterKeyForFormat options.format dir env.keyFile
      options.masterKeyHex).1 = .ok publicMasterKey := by
    intro heven
    rw [masterKeyForFormat, if_pos heven]
  rcases hkey : masterKeyForFormat options.format dir env.keyFile options.masterKeyHex with
    ⟨keyResult, keyed⟩
  rw [hkey] at hstore hcarbonado hpublic
  cases keyResult with
  | error err => exact .inl ⟨hstore, hcarbonado⟩
  | ok masterKey =>
    dsimp only
    split
    · exact .inl ⟨hstore, hcarbonado⟩
    · rename_i encoded baoRoot hseal
      refine .inr ⟨plaintext, encoded, baoRoot, hread,
        ⟨masterKey, plaintext, env.nonce, rfl, fun heven => Except.ok.inj (hpublic heven), hseal⟩, ?_⟩
      have hwrites := publishEncoded_writes_container laws keyed env options plaintext encoded baoRoot
      refine ⟨fun r f => ?_, ?_⟩
      · rw [← hcarbonado]
        exact hwrites.files r f
      · rw [← hstore]
        exact hwrites.store

/-! ### What is decoded -/

/-- The content of a public container is its plaintext, when it passes the guards on the sizes. -/
theorem decode_sealed (laws : stages.Laws) {dir : DataDir} {row : CommitmentMeta}
    {baoRoot : Bytes32} {plaintext nonce encoded : Bytes} (maxDecodedBytes : Nat)
    (heven : row.format % 2 = 0) (hpath : row.carbonadoPath = containerName baoRoot row.format)
    (hfile : dir.carbonado row.carbonadoPath = some encoded)
    (hsealed : sealPlaintext publicMasterKey plaintext row.format nonce = .ok (encoded, baoRoot)) :
    (encoded.length ≤ maxEncodedBytesForDecode maxDecodedBytes ∧
        stages.Readable plaintext row.format nonce maxDecodedBytes ∧
        plaintext.length ≤ maxDecodedBytes ∧
        decodePublicCommitmentContent dir row baoRoot maxDecodedBytes = .ok plaintext) ∨
      (¬(encoded.length ≤ maxEncodedBytesForDecode maxDecodedBytes ∧
          stages.Readable plaintext row.format nonce maxDecodedBytes ∧
          plaintext.length ≤ maxDecodedBytes) ∧
        ∃ err, decodePublicCommitmentContent dir row baoRoot maxDecodedBytes = .error err ∧
          (err = .encodedFileTooLarge encoded.length (maxEncodedBytesForDecode maxDecodedBytes) ∨
            err = .corruptPayload ∨ err = .oversized maxDecodedBytes)) := by
  obtain ⟨encoded', hencode, hsealed⟩ := bind_eq_ok.mp hsealed
  obtain ⟨header, hheader, hsealed⟩ := bind_eq_ok.mp hsealed
  cases hsealed
  rw [Result.context_eq_ok] at hencode hheader
  obtain ⟨hformat, hmac, hdecode⟩ := laws.header hencode hheader
  obtain ⟨head, hlayout, hhead⟩ := laws.layout hencode
  have hbody : encoded.drop Carbonado.headerLen =
      stages.body publicMasterKey plaintext row.format nonce := by
    rw [hlayout, List.drop_left' hhead]
  have hauth : authenticateHeader publicMasterKey header = .ok () := by
    rw [authenticateHeader, hmac]
    exact if_pos (constantTimeEq_refl _)
  have hvalid : validateCarbonadoRelativePath row.carbonadoPath = .ok () := by
    rw [hpath]
    exact validate_relativePath header.hash row.format
  rw [stages.readable_iff (laws.length_lt hencode), ← hbody]
  unfold decodePublicCommitmentContent decodePublicCommitmentContentWithEncodedCap
  rw [hvalid, readCarbonadoFile, hfile]
  dsimp only
  rw [if_neg (not_not.mpr heven)]
  by_cases hsize : maxEncodedBytesForDecode maxDecodedBytes < encoded.length
  · rw [if_pos hsize]
    exact .inr ⟨fun h => Nat.not_le.mpr hsize h.1, _, rfl, .inl rfl⟩
  rw [if_neg hsize, ok_bind, hheader]
  dsimp only
  rw [if_neg (not_not.mpr rfl), if_neg (not_not.mpr hformat), hauth]
  dsimp only
  cases hguard : readBaoContentLen (encoded.drop Carbonado.headerLen) with
  | error err =>
    refine .inr ⟨?_, _, rfl, .inr (.inl rfl)⟩
    rintro ⟨-, ⟨contentLen, hlen, -⟩, -⟩
    cases hlen
  | ok contentLen =>
    dsimp only
    by_cases hcontent : maxDecodedBytes < contentLen
    · rw [if_pos hcontent]
      refine .inr ⟨?_, _, rfl, .inr (.inr rfl)⟩
      rintro ⟨-, ⟨contentLen', hlen, hle⟩, -⟩
      cases hlen
      exact Nat.not_le.mpr hcontent hle
    · rw [if_neg hcontent, hdecode]
      dsimp only
      rw [if_neg (not_not.mpr rfl)]
      by_cases hlong : maxDecodedBytes < plaintext.length
      · rw [if_pos hlong]
        exact .inr ⟨fun h => Nat.not_le.mpr hlong h.2.2, _, rfl, .inr (.inr rfl)⟩
      · rw [if_neg hlong]
        exact .inl ⟨Nat.not_lt.mp hsize, ⟨contentLen, rfl, Nat.not_lt.mp hcontent⟩,
          Nat.not_lt.mp hlong, rfl⟩

end

end Lord.Storage
