import Lord.Storage.Filepack
import Lord.Storage.FilepackCbor
import Lord.Lib.LittleEndian
import Lord.Lib.Utf8

/-! The fingerprint of a JSON manifest and its verification.  The bytes behind the fingerprint have
no lengths and no separators, so they determine the entries only together with the lengths of the
paths. -/

namespace Lord.Storage

/-- The manifest in JSON. -/
class ManifestJson where
  fromSlice : Bytes → Result FilepackManifest

/-- What the hasher is fed for an entry. -/
def FilepackEntry.stream (entry : FilepackEntry) : Bytes :=
  Utf8.encode entry.path ++ (LittleEndian.encode 8 entry.size.toNat ++
    (Utf8.encode entry.baoRoot ++ [entry.format]))

/-- What `fingerprint_for_entries` feeds the hasher. -/
def entriesStream (entries : List FilepackEntry) : Bytes := entries.flatMap FilepackEntry.stream

/-- Options for `verify_filepack`. -/
structure VerifyFilepackOptions where
  filepackCompat : Bool

/-- Result of verifying a Lord filepack manifest. -/
structure VerifyFilepackResult where
  fingerprint : String
  version : UInt32
  entries : Nat
  valid : Bool
  deriving Repr, DecidableEq

/-- The directory of a filepack: how its files read. -/
structure FilepackRoot where
  path : String
  manifest : Result Bytes
  sidecar : Result Bytes

/-- Read the Lord sidecar. -/
def FilepackRoot.readCarbonadoSidecar (root : FilepackRoot) : Result Bytes :=
  root.sidecar.context s!"failed to read sidecar `{root.path}/lord.carbonado.cbor`"

def manifestFromCompatBindings (fingerprint : String)
    (bindings : SortedMap String CarbonadoBinding) : FilepackManifest where
  version := 2
  fingerprint := fingerprint
  root := "."
  entries := (bindings.entries.map fun binding =>
    ({ path := binding.1, size := 0, baoRoot := binding.2.baoRoot,
       format := binding.2.format } : FilepackEntry)).insertionSort fun a b => a.path ≤ b.path

/-- One round of the loop over the entries of the manifest. -/
def verifyEntry (store : StorageStore) (fingerprint : String) (entry : FilepackEntry) :
    Result Unit := do
  let baoRoot ← parseEntryRoot entry.baoRoot
  let row ← okOr (store.getCommitment baoRoot)
    s!"missing commitment metadata for {entry.baoRoot}"
  match row.filepackFp with
  | none => .error s!"commitment {entry.baoRoot} is not bound to filepack `{fingerprint}`"
  | some fp =>
    if fp ≠ fingerprint then
      .error s!"commitment {entry.baoRoot} is bound to filepack `{fp}`, not `{fingerprint}`"
    else if row.format ≠ entry.format then
      .error s!"format mismatch for {entry.path}"
    else
      .ok ()

section

variable [Blake3]

def fingerprintForEntries (entries : List FilepackEntry) : String :=
  Hex.encode (Blake3.hash (entriesStream entries)).val

def ensureManifestFingerprint (manifest : FilepackManifest) (fingerprint : String) :
    Result Unit :=
  if manifest.fingerprint ≠ fingerprint then
    .error s!"manifest fingerprint `{manifest.fingerprint}` does not match `{fingerprint}`"
  else
    let computed := fingerprintForEntries manifest.entries
    if computed ≠ fingerprint then
      .error s!"manifest entry fingerprint mismatch (computed `{computed}`)"
    else
      .ok ()

variable [Bech32] [Minicbor Directory] [Minicbor Archive]
  [Minicbor (SortedMap String CarbonadoBindingCbor)] [ManifestJson]

/-- The manifest that a call verifies: a JSON one, or in compat mode one made of the sidecar of a
Casey archive. -/
def loadManifest (fuel : Nat) (root : FilepackRoot) (fingerprint : String)
    (options : VerifyFilepackOptions) : Result FilepackManifest := do
  let bytes ← root.manifest.context s!"failed to read `{root.path}/manifest.filepack`"
  -- `b'{'`
  if bytes.head? = some 0x7b then
    if options.filepackCompat then
      .error "`--filepack-compat` requires a Casey CBOR manifest, found JSON"
    else do
      let manifest ← (ManifestJson.fromSlice bytes).context "parse manifest"
      ensureManifestFingerprint manifest fingerprint
      .ok manifest
  else if !options.filepackCompat then
    .error "manifest is CBOR; pass `--filepack-compat` to verify Casey archives"
  else do
    let packageFiles ← (verifyCaseyArchive fuel bytes).context "casey archive verification failed"
    let archiveFp ← (caseyArchiveFingerprint bytes).context
      "failed to derive Casey archive fingerprint"
    if archiveFp ≠ fingerprint then
      .error s!"archive fingerprint `{archiveFp}` does not match `{fingerprint}`"
    else do
      let sidecar ← root.readCarbonadoSidecar
      let bindings ← decodeCarbonadoSidecar sidecar
      ensureCaseyBindingsMatchSidecar packageFiles bindings
      .ok (manifestFromCompatBindings fingerprint bindings)

/-- Verify a Lord filepack manifest and LMDB metadata bindings. -/
def verifyFilepack (fuel : Nat) (root : FilepackRoot) (store : Result StorageStore)
    (fingerprint : String) (options : VerifyFilepackOptions) : Result VerifyFilepackResult := do
  let manifest ← loadManifest fuel root fingerprint options
  let store ← store
  manifest.entries.forM (verifyEntry store fingerprint)
  .ok { fingerprint, version := manifest.version, entries := manifest.entries.length, valid := true }

end

/-! ### What the bytes behind a fingerprint determine -/

/-- The length of the path in bytes. -/
def FilepackEntry.pathLength (entry : FilepackEntry) : Nat := (Utf8.encode entry.path).length

/-- The root is that of a commitment, in sixty-four hexadecimal characters. -/
def FilepackEntry.HexRoot (entry : FilepackEntry) : Prop :=
  ∃ baoRoot, parseEntryRoot entry.baoRoot = .ok baoRoot

theorem length_hexRoot {entry : FilepackEntry} (h : entry.HexRoot) :
    (Utf8.encode entry.baoRoot).length = 64 := by
  obtain ⟨baoRoot, hparse⟩ := h
  unfold parseEntryRoot at hparse
  cases hdecode : Hex.decode entry.baoRoot with
  | none =>
    simp only [hdecode] at hparse
    cases hparse
  | some bytes =>
    simp only [hdecode] at hparse
    obtain ⟨hdigits, hall⟩ := Hex.ofDigits_some hdecode
    have hlen : bytes.length = 32 := by
      by_contra hne
      rw [dif_neg hne] at hparse
      cases hparse
    rw [Utf8.length_encode_of_ascii fun c hc => Hex.toNat_lt_of_digitValue (hall c hc), hdigits, hlen]

/-- Equal bytes behind paths of equal length come from equal entries. -/
theorem FilepackEntry.eq_of_stream {a b : FilepackEntry} (ha : a.HexRoot) (hb : b.HexRoot)
    (hlen : a.pathLength = b.pathLength) {restA restB : Bytes}
    (h : a.stream ++ restA = b.stream ++ restB) : a = b ∧ restA = restB := by
  simp only [stream, List.append_assoc] at h
  obtain ⟨hpath, h⟩ := List.append_inj h hlen
  obtain ⟨hsize, h⟩ := List.append_inj h (by simp)
  obtain ⟨hroot, h⟩ := List.append_inj h (by rw [length_hexRoot ha, length_hexRoot hb])
  obtain ⟨hformat, h⟩ := List.append_inj h rfl
  have hsizes : a.size.toNat = b.size.toNat := by
    have hdecoded := congrArg LittleEndian.decode hsize
    rwa [LittleEndian.decode_encode a.size.toNat_lt,
      LittleEndian.decode_encode b.size.toNat_lt] at hdecoded
  refine ⟨?_, h⟩
  obtain ⟨path, size, baoRoot, format⟩ := a
  obtain ⟨path', size', baoRoot', format'⟩ := b
  obtain rfl : path = path' := Utf8.encode_injective hpath
  obtain rfl : size = size' := UInt64.toNat_inj.mp hsizes
  obtain rfl : baoRoot = baoRoot' := Utf8.encode_injective hroot
  obtain rfl : format = format' := List.singleton_inj.mp hformat
  rfl

/-- Lists of entries with the same bytes are equal exactly when the lengths of their paths are. -/
theorem entries_eq_iff {entries entries' : List FilepackEntry}
    (h : ∀ entry ∈ entries, entry.HexRoot) (h' : ∀ entry ∈ entries', entry.HexRoot)
    (hstream : entriesStream entries = entriesStream entries') :
    entries = entries' ↔
      entries.map FilepackEntry.pathLength = entries'.map FilepackEntry.pathLength := by
  refine ⟨congrArg _, fun hlengths => ?_⟩
  induction entries generalizing entries' with
  | nil =>
    rw [List.map_nil] at hlengths
    exact (List.map_eq_nil_iff.mp hlengths.symm).symm
  | cons entry rest ih =>
    rw [List.map_cons] at hlengths
    obtain ⟨entry', rest', rfl, hlen, hrests⟩ := List.map_eq_cons_iff.mp hlengths.symm
    rw [entriesStream, entriesStream, List.flatMap_cons, List.flatMap_cons] at hstream
    obtain ⟨rfl, hrest⟩ := FilepackEntry.eq_of_stream (h entry (by simp)) (h' entry' (by simp))
      hlen.symm hstream
    rw [ih (fun e he => h e (List.mem_cons_of_mem _ he))
      (fun e he => h' e (List.mem_cons_of_mem _ he)) hrest hrests.symm]

/-! ### Manifests under one fingerprint -/

theorem forM_verifyEntry {store : StorageStore} {fingerprint : String}
    {entries : List FilepackEntry}
    (h : entries.forM (verifyEntry store fingerprint) = .ok ()) :
    ∀ entry ∈ entries, entry.HexRoot := by
  induction entries with
  | nil => simp
  | cons entry rest ih =>
    obtain ⟨_, hfirst, hrest⟩ := bind_eq_ok.mp h
    obtain ⟨baoRoot, hparse, -⟩ := bind_eq_ok.mp hfirst
    exact List.forall_mem_cons.mpr ⟨⟨baoRoot, hparse⟩, ih hrest⟩

theorem ensureManifestFingerprint_ok [Blake3] {manifest : FilepackManifest} {fingerprint : String}
    (h : ensureManifestFingerprint manifest fingerprint = .ok ()) :
    fingerprintForEntries manifest.entries = fingerprint := by
  unfold ensureManifestFingerprint at h
  split at h
  · cases h
  dsimp only at h
  split at h
  · cases h
  · rename_i hne
    exact not_not.mp hne

section

variable [Blake3] [Bech32] [Minicbor Directory] [Minicbor Archive]
  [Minicbor (SortedMap String CarbonadoBindingCbor)] [ManifestJson]

/-- Some call accepts a JSON manifest with these entries under the fingerprint. -/
def AcceptsJson (fingerprint : String) (entries : List FilepackEntry) : Prop :=
  ∃ fuel root store options bytes manifest result,
    root.manifest = .ok bytes ∧ bytes.head? = some 0x7b ∧
      ManifestJson.fromSlice bytes = .ok manifest ∧ manifest.entries = entries ∧
      verifyFilepack fuel root store fingerprint options = .ok result

/-- What an accepted JSON manifest has passed. -/
theorem AcceptsJson.checked {fingerprint : String} {entries : List FilepackEntry}
    (h : AcceptsJson fingerprint entries) :
    fingerprintForEntries entries = fingerprint ∧ ∀ entry ∈ entries, entry.HexRoot := by
  obtain ⟨fuel, root, store, options, bytes, manifest, result, hread, hbrace, hparse, rfl, h⟩ := h
  obtain ⟨loaded, hload, h⟩ := bind_eq_ok.mp h
  obtain ⟨store, -, h⟩ := bind_eq_ok.mp h
  obtain ⟨_, hentries, -⟩ := bind_eq_ok.mp h
  obtain ⟨bytes', hbytes, hload⟩ := bind_eq_ok.mp hload
  obtain rfl : bytes = bytes' := by
    rw [hread] at hbytes
    exact Except.ok.inj hbytes
  rw [if_pos hbrace] at hload
  split at hload
  · cases hload
  obtain ⟨parsed, hparsed, hload⟩ := bind_eq_ok.mp hload
  obtain ⟨_, hensure, hload⟩ := bind_eq_ok.mp hload
  obtain rfl : manifest = parsed := by
    rw [hparse] at hparsed
    exact Except.ok.inj hparsed
  obtain rfl : manifest = loaded := Except.ok.inj hload
  exact ⟨ensureManifestFingerprint_ok hensure, forM_verifyEntry hentries⟩

end

/-- Equal bytes for the hasher, or one fingerprint that two manifests are accepted under without a
collision of the hash, bind the entries exactly up to the lengths of their paths. -/
theorem fingerprint_binds_iff [Blake3] [Bech32] [Minicbor Directory] [Minicbor Archive]
    [Minicbor (SortedMap String CarbonadoBindingCbor)] [ManifestJson]
    (entries entries' : List FilepackEntry) :
    ((∀ entry ∈ entries, entry.HexRoot) → (∀ entry ∈ entries', entry.HexRoot) →
      entriesStream entries = entriesStream entries' →
      (entries = entries' ↔
        entries.map FilepackEntry.pathLength = entries'.map FilepackEntry.pathLength)) ∧
    ∀ fingerprint, AcceptsJson fingerprint entries → AcceptsJson fingerprint entries' →
      (Blake3.hash (entriesStream entries) = Blake3.hash (entriesStream entries') →
        entriesStream entries = entriesStream entries') →
      (entries = entries' ↔
        entries.map FilepackEntry.pathLength = entries'.map FilepackEntry.pathLength) := by
  refine ⟨fun h h' hstream => entries_eq_iff h h' hstream, ?_⟩
  intro fingerprint haccepts haccepts' hinjective
  obtain ⟨hfp, h⟩ := haccepts.checked
  obtain ⟨hfp', h'⟩ := haccepts'.checked
  have hhash : Blake3.hash (entriesStream entries) = Blake3.hash (entriesStream entries') :=
    Subtype.ext (Hex.encode_injective (hfp.trans hfp'.symm))
  exact entries_eq_iff h h' (hinjective hhash)

/-- The entries of two files. -/
def twoFiles : List FilepackEntry :=
  [⟨"a", 5, String.ofList (List.replicate 64 '0'), 12⟩,
    ⟨"b", 4, String.ofList (List.replicate 64 '1'), 12⟩]

/-- The entry of one file whose path runs on through the first of the two files. -/
def mergedFile : List FilepackEntry :=
  [⟨String.ofList ('a' :: Char.ofNat 5 :: List.replicate 7 (Char.ofNat 0) ++
      List.replicate 64 '0' ++ [Char.ofNat 12, 'b']),
    4, String.ofList (List.replicate 64 '1'), 12⟩]

/-- The pack of two files has the bytes of a pack of one. -/
theorem entriesStream_not_injective :
    ∃ entries entries' : List FilepackEntry,
      (∀ entry ∈ entries, (parseEntryRoot entry.baoRoot).isOk = true) ∧
      (∀ entry ∈ entries', (parseEntryRoot entry.baoRoot).isOk = true) ∧
      entriesStream entries = entriesStream entries' ∧ entries ≠ entries' :=
  ⟨twoFiles, mergedFile, by decide +kernel, by decide +kernel, by decide +kernel, by decide +kernel⟩

end Lord.Storage
