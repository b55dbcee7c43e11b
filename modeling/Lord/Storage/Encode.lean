import Lord.Storage.OrderIndex
import Lord.Storage.DataDir

/-! Encoding a file into Carbonado: the blob is sealed under the master key, published beside the
store, and recorded by a new metadata row. -/

namespace Lord.Storage

/-! ### The master key -/

/-- How the creation of `master.key` goes. -/
structure KeyFileEnv where
  createDir : Result Unit
  random : Result Bytes32
  openNew : Result Unit
  write : Option WriteFault
  chmod : Result Unit
  /-- The mode of a file that is not restricted yet. -/
  defaultMode : Nat

/-- Load an existing master key or create one. -/
def loadOrCreateMasterKey (dir : DataDir) (env : KeyFileEnv) (masterKeyHex : Option String) :
    Result Bytes32 × DataDir :=
  match masterKeyHex with
  | some hex => (parseMasterKeyHex hex, dir)
  | none =>
    match dir.masterKey with
    | some file => (readMasterKeyFile dir file, dir)
    | none =>
      match env.createDir.context s!"failed to create `{dir.path}/storage`" with
      | .error err => (.error err, dir)
      | .ok () =>
        match env.random.context "failed to generate master key" with
        | .error err => (.error err, dir)
        | .ok key =>
          match env.openNew.context s!"failed to create master key `{dir.masterKeyPath}`" with
          | .error err => (.error err, dir)
          | .ok () =>
            let written := writeAll env.write key.val
            match written.1.context s!"failed to write master key `{dir.masterKeyPath}`" with
            | .error err => (.error err, { dir with masterKey := some ⟨env.defaultMode, written.2⟩ })
            | .ok () =>
              match env.chmod.context s!"failed to chmod 0600 master key `{dir.masterKeyPath}`" with
              | .error err =>
                (.error err, { dir with masterKey := some ⟨env.defaultMode, written.2⟩ })
              | .ok () => (.ok key, { dir with masterKey := some ⟨0o100600, written.2⟩ })

def masterKeyForFormat (format : UInt8) (dir : DataDir) (env : KeyFileEnv)
    (masterKeyHex : Option String) : Result Bytes32 × DataDir :=
  if format % 2 = 0 then (.ok publicMasterKey, dir) else loadOrCreateMasterKey dir env masterKeyHex

/-- A master key never touches the store. -/
theorem masterKeyForFormat_store (format : UInt8) (dir : DataDir) (env : KeyFileEnv)
    (masterKeyHex : Option String) :
    (masterKeyForFormat format dir env masterKeyHex).2.store = dir.store := by
  unfold masterKeyForFormat loadOrCreateMasterKey
  split
  · rfl
  split
  · rfl
  split
  · rfl
  split
  · rfl
  split
  · rfl
  split
  · rfl
  dsimp only
  split
  · rfl
  split <;> rfl

/-! ### The encode -/

/-- Options for encoding a file into Carbonado. -/
structure EncodeOptions where
  format : UInt8
  layout : Layout
  masterKeyHex : Option String
  /-- Plaintext read before; the input is not read again. -/
  plaintext : Option Bytes

/-- What an encode takes from outside: the input file, the key file, the nonce, the clock and how
each step on the file system goes. -/
structure EncodeEnv where
  inputPath : String
  input : Result Bytes
  keyFile : KeyFileEnv
  nonce : Bytes
  createCarbonadoDir : Result Unit
  writeCarbonado : Result Unit
  writePlain : Result Unit
  now : Result UInt64
  publishCarbonado : Result Unit
  publishPlain : Result Unit

/-- Result of a successful encode operation. -/
structure EncodeResult where
  baoRoot : String
  carbonadoPath : String
  format : UInt8
  layout : Layout
  visibility : Visibility
  outboardPlaintext : Option String
  deriving Repr, DecidableEq

/-- The name that a file has until it is published. -/
def tempName (name : String) : String := s!".{name}.tmp"

/-- The plaintext is published beside the blob. -/
def EncodeOptions.outboard (options : EncodeOptions) : Bool :=
  Visibility.fromFormat options.format = .pub && options.layout = .outboard

def readPlaintext (env : EncodeEnv) (options : EncodeOptions) : Result Bytes :=
  match options.plaintext with
  | some bytes => .ok bytes
  | none => env.input.context s!"failed to read `{env.inputPath}`"

/-- Files after a rename of one over another. -/
def renameFile (files : String → Option Bytes) (src dst : String) (data : Bytes) :
    String → Option Bytes :=
  writeFile (removeFile files src) dst data

section

variable [Carbonado]

/-- The container of a plaintext and its root. -/
def sealPlaintext (masterKey : Bytes32) (plaintext : Bytes) (format : UInt8) (nonce : Bytes) :
    Result (Bytes × Bytes32) := do
  let encoded ← Result.context (Carbonado.encode masterKey plaintext format nonce)
    "carbonado encode"
  let header ← Result.context (Carbonado.header encoded)
    "failed to parse encoded carbonado header"
  .ok (encoded, header.hash)

/-- The part of `encode_file_with_store` behind the sealed container. -/
def publishEncoded (dir : DataDir) (env : EncodeEnv) (options : EncodeOptions) (plaintext : Bytes)
    (encoded : Bytes) (baoRoot : Bytes32) : Result EncodeResult × DataDir :=
  let baoRootHex := Carbonado.encodeBaoHash baoRoot
  let relativePath := DataDir.carbonadoRelativePath baoRootHex options.format
  let plainName := s!"{baoRootHex}.plain"
  match env.createCarbonadoDir.context s!"failed to create `{dir.carbonadoDir}`" with
  | .error err => (.error err, dir)
  | .ok () =>
    match env.writeCarbonado.context
        s!"failed to write temp carbonado file `{dir.carbonadoDir}/{tempName relativePath}`" with
    | .error err => (.error err, dir)
    | .ok () =>
      let staged := writeFile dir.carbonado (tempName relativePath) encoded
      match if options.outboard then env.writePlain.context
            s!"failed to write temp outboard plaintext `{dir.carbonadoDir}/{tempName plainName}`"
          else .ok () with
      | .error err => (.error err, { dir with carbonado := staged })
      | .ok () =>
        let staged :=
          if options.outboard then writeFile staged (tempName plainName) plaintext else staged
        match env.now.context "system clock before unix epoch" with
        | .error err => (.error err, { dir with carbonado := staged })
        | .ok createdAt =>
          match env.publishCarbonado.context
              s!"failed to publish carbonado file `{dir.carbonadoDir}/{relativePath}`" with
          | .error err => (.error err, { dir with carbonado := staged })
          | .ok () =>
            let published := renameFile staged (tempName relativePath) relativePath encoded
            match if options.outboard then env.publishPlain.context
                  s!"failed to publish outboard plaintext `{dir.carbonadoDir}/{plainName}`"
                else .ok () with
            | .error err => (.error err, { dir with carbonado := published })
            | .ok () =>
              (.ok { baoRoot := baoRootHex, carbonadoPath := relativePath, format := options.format,
                     layout := options.layout, visibility := .fromFormat options.format,
                     outboardPlaintext := if options.outboard then some plainName else none },
                { dir with
                  carbonado := if options.outboard then
                      renameFile published (tempName plainName) plainName plaintext
                    else published
                  store := dir.store.putCommitment
                    (.new baoRoot relativePath options.format options.layout createdAt) })

def encodeFileWithStore (dir : DataDir) (env : EncodeEnv) (options : EncodeOptions) :
    Result EncodeResult × DataDir :=
  if 15 < options.format then
    (.error s!"invalid carbonado format c{options.format}, must be c0..c15", dir)
  else
    match readPlaintext env options with
    | .error err => (.error err, dir)
    | .ok plaintext =>
      match masterKeyForFormat options.format dir env.keyFile options.masterKeyHex with
      | (.error err, dir) => (.error err, dir)
      | (.ok masterKey, dir) =>
        match sealPlaintext masterKey plaintext options.format env.nonce with
        | .error err => (.error err, dir)
        | .ok (encoded, baoRoot) => publishEncoded dir env options plaintext encoded baoRoot

/-! ### What an encode writes -/

/-- No step on the file system fails, and the clock is set. -/
structure EncodeEnv.Clear (env : EncodeEnv) (outboard : Bool) : Prop where
  createCarbonadoDir : env.createCarbonadoDir = .ok ()
  writeCarbonado : env.writeCarbonado = .ok ()
  writePlain : outboard = true → env.writePlain = .ok ()
  now : ∃ createdAt, env.now = .ok createdAt
  publishCarbonado : env.publishCarbonado = .ok ()
  publishPlain : outboard = true → env.publishPlain = .ok ()

/-- The call encodes its input to this root and gets as far as the store. -/
def Encodes (dir : DataDir) (env : EncodeEnv) (options : EncodeOptions) (baoRoot : Bytes32) :
    Prop :=
  ¬15 < options.format ∧ env.Clear options.outboard ∧
    ∃ plaintext masterKey encoded, readPlaintext env options = .ok plaintext ∧
      (masterKeyForFormat options.format dir env.keyFile options.masterKeyHex).1 = .ok masterKey ∧
      sealPlaintext masterKey plaintext options.format env.nonce = .ok (encoded, baoRoot)

/-- A sealed container is published and recorded by a new row, or the store stays as it is. -/
theorem publishEncoded_spec (dir : DataDir) (env : EncodeEnv) (options : EncodeOptions)
    (plaintext encoded : Bytes) (baoRoot : Bytes32) :
    (env.Clear options.outboard ∧ ∃ result row, row.baoRoot = baoRoot ∧
        row.otsState = (none, none, none) ∧
        (publishEncoded dir env options plaintext encoded baoRoot).1 = .ok result ∧
        result.baoRoot = Carbonado.encodeBaoHash baoRoot ∧
        (publishEncoded dir env options plaintext encoded baoRoot).2.store =
          dir.store.putCommitment row) ∨
      (¬env.Clear options.outboard ∧
        (∃ err, (publishEncoded dir env options plaintext encoded baoRoot).1 = .error err) ∧
        (publishEncoded dir env options plaintext encoded baoRoot).2.store = dir.store) := by
  have hcontext : ∀ {α : Type} {r : Result α} {message : String} {err : Error},
      r.context message = .error err → ∀ a, r ≠ .ok a := by
    rintro α r message err h a rfl
    cases h
  unfold publishEncoded
  dsimp only
  split
  · rename_i h
    exact .inr ⟨fun clear => hcontext h _ clear.createCarbonadoDir, ⟨_, rfl⟩, rfl⟩
  rename_i hcreate
  split
  · rename_i h
    exact .inr ⟨fun clear => hcontext h _ clear.writeCarbonado, ⟨_, rfl⟩, rfl⟩
  rename_i hwrite
  split
  · rename_i h
    refine .inr ⟨fun clear => ?_, ⟨_, rfl⟩, rfl⟩
    cases hout : options.outboard <;> simp only [hout, Bool.false_eq_true, if_true, if_false] at h
    · cases h
    · exact hcontext h _ (clear.writePlain hout)
  rename_i hplain
  split
  · rename_i h
    exact .inr ⟨fun clear => clear.now.elim fun t ht => hcontext h t ht, ⟨_, rfl⟩, rfl⟩
  rename_i createdAt hnow
  split
  · rename_i h
    exact .inr ⟨fun clear => hcontext h _ clear.publishCarbonado, ⟨_, rfl⟩, rfl⟩
  rename_i hpublish
  split
  · rename_i h
    refine .inr ⟨fun clear => ?_, ⟨_, rfl⟩, rfl⟩
    cases hout : options.outboard <;> simp only [hout, Bool.false_eq_true, if_true, if_false] at h
    · cases h
    · exact hcontext h _ (clear.publishPlain hout)
  rename_i hpublishPlain
  refine .inl ⟨?_, _, _, rfl, rfl, rfl, rfl, rfl⟩
  simp only [Result.context_eq_ok] at hcreate hwrite hnow hpublish
  refine ⟨hcreate, hwrite, fun hout => ?_, ⟨createdAt, hnow⟩, hpublish, fun hout => ?_⟩
  · simpa [hout] using hplain
  · simpa [hout] using hpublishPlain

/-- What a call of the encoder does: it encodes to one root, whose row it replaces by a new one, or
it fails and leaves the store as it is. -/
theorem encodeFileWithStore_spec (dir : DataDir) (env : EncodeEnv) (options : EncodeOptions) :
    (∃ baoRoot result row, (∀ r, Encodes dir env options r ↔ baoRoot = r) ∧
        row.baoRoot = baoRoot ∧ row.otsState = (none, none, none) ∧
        (encodeFileWithStore dir env options).1 = .ok result ∧
        result.baoRoot = Carbonado.encodeBaoHash baoRoot ∧
        (encodeFileWithStore dir env options).2.store = dir.store.putCommitment row) ∨
      ((∀ r, ¬Encodes dir env options r) ∧
        (∃ err, (encodeFileWithStore dir env options).1 = .error err) ∧
        (encodeFileWithStore dir env options).2.store = dir.store) := by
  unfold encodeFileWithStore
  split
  · rename_i hformat
    exact .inr ⟨fun r h => h.1 hformat, ⟨_, rfl⟩, rfl⟩
  rename_i hformat
  cases hread : readPlaintext env options with
  | error err =>
    refine .inr ⟨?_, ⟨_, rfl⟩, rfl⟩
    rintro r ⟨-, -, plaintext, -, -, hok, -, -⟩
    rw [hread] at hok
    cases hok
  | ok plaintext =>
    have hstore := masterKeyForFormat_store options.format dir env.keyFile options.masterKeyHex
    rcases hkey : masterKeyForFormat options.format dir env.keyFile options.masterKeyHex with
      ⟨keyResult, dir'⟩
    rw [hkey] at hstore
    cases keyResult with
    | error err =>
      refine .inr ⟨?_, ⟨_, rfl⟩, hstore⟩
      rintro r ⟨-, -, _, _, -, -, hok, -⟩
      rw [hkey] at hok
      cases hok
    | ok masterKey =>
      cases hseal : sealPlaintext masterKey plaintext options.format env.nonce with
      | error err =>
        refine .inr ⟨?_, ⟨err, by simp only [hseal]⟩, by simp only [hseal]; exact hstore⟩
        rintro r ⟨-, -, plaintext', masterKey', _, hok, hok', hok''⟩
        rw [hread] at hok
        rw [hkey] at hok'
        cases hok
        cases hok'
        rw [hseal] at hok''
        cases hok''
      | ok sealed =>
        obtain ⟨encoded, baoRoot⟩ := sealed
        simp only [hseal]
        rcases publishEncoded_spec dir' env options plaintext encoded baoRoot with
          ⟨hclear, result, row, hroot, hstate, hok, hresult, hput⟩ | ⟨hclear, herr, hsame⟩
        · refine .inl ⟨baoRoot, result, row, fun r => ⟨?_, ?_⟩, hroot, hstate, hok, hresult,
            by rw [hput, hstore]⟩
          · rintro ⟨-, -, plaintext', masterKey', _, hok, hok', hok''⟩
            rw [hread] at hok
            rw [hkey] at hok'
            cases hok
            cases hok'
            rw [hseal] at hok''
            cases hok''
            rfl
          · rintro rfl
            exact ⟨hformat, hclear, plaintext, masterKey, encoded, hread, by rw [hkey], hseal⟩
        · exact .inr ⟨fun r h => hclear h.2.1, herr, hsame.trans hstore⟩

/-- An encode resets the OTS state of the root it encodes to, and changes no other row. -/
theorem encodeFileWithStore_resets (dir : DataDir) (env : EncodeEnv) (options : EncodeOptions) :
    dir.store.Resets (encodeFileWithStore dir env options).2.store (Encodes dir env options) := by
  rcases encodeFileWithStore_spec dir env options with
    ⟨baoRoot, result, row, hiff, rfl, hstate, -, -, hput⟩ | ⟨hnone, -, hsame⟩
  · rw [hput]
    exact (StorageStore.Resets.putCommitment dir.store hstate).congr fun r => (hiff r).symm
  · rw [hsame]
    exact (StorageStore.Resets.refl dir.store).congr fun r => by simp [hnone r]

end

end Lord.Storage
