import Lord.Storage.DataDir

/-! The possession check: `verify_commitment` decodes a stored blob and samples slices of it.  The
calls that reach the Carbonado codec are recorded beside the result. -/

namespace Lord.Storage

section

variable [Carbonado]

/-- A call of the Carbonado codec. -/
inductive CodecCall where
  | decode (masterKey : Bytes32) (encoded : Bytes)
  | verifySlice (body : Bytes) (index : UInt32) (baoRoot : Bytes32) (format : UInt8)
  deriving DecidableEq

/-- Options for probabilistic Bao slice verification. -/
structure VerifyOptions where
  sampleRate : UInt32
  masterKeyHex : Option String

/-- Result of a successful verification run. -/
structure VerifyResult where
  baoRoot : String
  slicesVerified : UInt32
  totalSlices : UInt32
  deriving DecidableEq

/-- `SliceRandom::shuffle`: some permutation of its argument. -/
structure Shuffle where
  shuffle : List UInt32 → List UInt32
  perm : ∀ xs, (shuffle xs).Perm xs

/-- `div_ceil(SLICE_LEN)`. -/
def totalSlices (header : Header) : UInt32 :=
  UInt32.ofNat
    ((header.encodedLen.toNat + Carbonado.sliceLen.toNat - 1) / Carbonado.sliceLen.toNat)

/-- The shuffled indices below `total`, truncated to the number of samples. -/
def sampleIndices (rng : Shuffle) (samples total : UInt32) : List UInt32 :=
  (rng.shuffle ((List.range total.toNat).map UInt32.ofNat)).take samples.toNat

/-- Sample a slice via the partial proof API. -/
def verifySampledSlice (body decoded : Bytes) (index : UInt32) (baoRoot : Bytes32)
    (format : UInt8) : List CodecCall × Result Unit :=
  let sliceStart := index.toNat * Carbonado.sliceLen.toNat
  if decoded.length ≤ sliceStart then
    ([], .ok ())
  else
    ([.verifySlice body index baoRoot format],
      match Carbonado.verifySlice body index baoRoot format with
      | .ok () => .ok ()
      | .error err => .error s!"bao slice {index} failed verification: {err}")

/-- The loop over the sampled indices. -/
def verifySampledSlices (body decoded : Bytes) (baoRoot : Bytes32) (format : UInt8) :
    List UInt32 → List CodecCall × Result Unit
  | [] => ([], .ok ())
  | index :: rest =>
    match verifySampledSlice body decoded index baoRoot format with
    | (calls, .error err) =>
      (calls, Result.context (.error err) s!"bao slice {index} failed verification")
    | (calls, .ok ()) =>
      let tail := verifySampledSlices body decoded baoRoot format rest
      (calls ++ tail.1, tail.2)

/-- What `verify_commitment` establishes before it samples: the requested root, its row, the blob,
its header and the key. -/
structure Located where
  baoRoot : Bytes32
  row : CommitmentMeta
  encoded : Bytes
  header : Header
  masterKey : Bytes32

/-- The checks of `verify_commitment` in front of the sampling. -/
def locate (dir : DataDir) (baoRootHex : String) (options : VerifyOptions) : Result Located :=
  if options.sampleRate = 0 then
    .error "sample-rate must be at least 1"
  else do
    let baoRoot ← parseBaoRoot baoRootHex
    let row ← okOr (dir.store.getCommitment baoRoot) s!"unknown bao root `{baoRootHex}`"
    validateCarbonadoRelativePath row.carbonadoPath
    let encoded ← readCarbonado dir row.carbonadoPath
    let header ← Result.context (Carbonado.header encoded) "invalid carbonado header"
    if header.hash ≠ baoRoot then
      .error "carbonado header hash does not match requested bao root"
    else if header.format ≠ row.format then
      .error (s!"carbonado header format c{header.format} does not match stored metadata " ++
        s!"format c{row.format}")
    else do
      let masterKey ← masterKeyForVerify row.format dir options.masterKeyHex
      authenticateHeader masterKey header
      if Carbonado.containsVerification row.format then
        .ok { baoRoot, row, encoded, header, masterKey }
      else
        .error s!"format c{row.format} does not include Bao verifiability"

/-- Lightweight carbonado header binding check for cross-store verification. -/
def verifyCarbonadoHeaderBinding (dir : DataDir) (row : CommitmentMeta) (baoRoot : Bytes32) :
    Result Unit := do
  validateCarbonadoRelativePath row.carbonadoPath
  let encoded ← readCarbonado dir row.carbonadoPath
  let header ← Result.context (Carbonado.header encoded) "invalid carbonado header"
  if header.hash ≠ baoRoot then
    .error "carbonado header hash does not match requested bao root"
  else if header.format ≠ row.format then
    .error (s!"carbonado header format c{header.format} does not match stored metadata " ++
      s!"format c{row.format}")
  else do
    let masterKey ← masterKeyForVerify row.format dir none
    authenticateHeader masterKey header

/-- The decode of the whole blob and the sampled slices. -/
def verifyLocated (rng : Shuffle) (baoRootHex : String) (options : VerifyOptions) (blob : Located) :
    List CodecCall × Result VerifyResult :=
  let total := totalSlices blob.header
  if total = 0 then
    ([], .ok { baoRoot := baoRootHex, slicesVerified := 0, totalSlices := 0 })
  else
    let samples := min options.sampleRate total
    let call := CodecCall.decode blob.masterKey blob.encoded
    match Carbonado.decode blob.masterKey blob.encoded with
    | .error err => ([call], Result.context (.error err) "carbonado decode verification failed")
    | .ok (decodedHeader, decoded) =>
      if decodedHeader.hash ≠ blob.baoRoot then
        ([call], .error "decoded carbonado header hash does not match requested bao root")
      else
        match verifySampledSlices (blob.encoded.drop Carbonado.headerLen) decoded blob.baoRoot
          blob.row.format (sampleIndices rng samples total) with
        | (calls, .error err) => (call :: calls, .error err)
        | (calls, .ok ()) =>
          (call :: calls,
            .ok { baoRoot := baoRootHex, slicesVerified := samples, totalSlices := total })

def verifyCommitment (rng : Shuffle) (dir : DataDir) (baoRootHex : String)
    (options : VerifyOptions) : List CodecCall × Result VerifyResult :=
  match locate dir baoRootHex options with
  | .error err => ([], .error err)
  | .ok blob => verifyLocated rng baoRootHex options blob

/-! ### What a successful run has checked -/

/-- The content of a blob was checked: the whole blob was decoded and carries the requested root,
and as many distinct slices as the result counts were each checked against that root. -/
def ContentChecked (blob : Located) (calls : List CodecCall) (result : VerifyResult) : Prop :=
  .decode blob.masterKey blob.encoded ∈ calls ∧
  (∃ header decoded, Carbonado.decode blob.masterKey blob.encoded = .ok (header, decoded) ∧
    header.hash = blob.baoRoot) ∧
  ∃ indices : List UInt32, indices.Nodup ∧ indices.length = result.slicesVerified.toNat ∧
    ∀ index ∈ indices, index < result.totalSlices ∧
      .verifySlice (blob.encoded.drop Carbonado.headerLen) index blob.baoRoot blob.row.format ∈
        calls ∧
      Carbonado.verifySlice (blob.encoded.drop Carbonado.headerLen) index blob.baoRoot
        blob.row.format = .ok ()

/-- The header declares a body, and every sampled index lies inside the decoded content. -/
def SamplesInside (rng : Shuffle) (blob : Located) (sampleRate : UInt32) : Prop :=
  blob.header.encodedLen ≠ 0 ∧
  ∀ header decoded, Carbonado.decode blob.masterKey blob.encoded = .ok (header, decoded) →
    ∀ index ∈ sampleIndices rng (min sampleRate (totalSlices blob.header))
        (totalSlices blob.header),
      index.toNat * Carbonado.sliceLen.toNat < decoded.length

omit [Carbonado] in
theorem range_indices_nodup (total : UInt32) :
    ((List.range total.toNat).map UInt32.ofNat).Nodup := by
  refine List.Nodup.map_on ?_ List.nodup_range
  intro a ha b hb h
  have htotal := total.toNat_lt_size
  have hab := congrArg UInt32.toNat h
  simp only [List.mem_range] at ha hb
  rwa [UInt32.toNat_ofNat_of_lt' (by omega), UInt32.toNat_ofNat_of_lt' (by omega)] at hab

omit [Carbonado] in
theorem min_le_total (rate total : UInt32) : min rate total ≤ total := by
  change (if rate ≤ total then rate else total) ≤ total
  split
  · assumption
  · exact UInt32.le_refl total

omit [Carbonado] in
theorem sampleIndices_nodup (rng : Shuffle) (samples total : UInt32) :
    (sampleIndices rng samples total).Nodup :=
  ((rng.perm _).nodup_iff.mpr (range_indices_nodup total)).sublist (List.take_sublist _ _)

omit [Carbonado] in
theorem sampleIndices_length (rng : Shuffle) {samples total : UInt32} (h : samples ≤ total) :
    (sampleIndices rng samples total).length = samples.toNat := by
  have hle := UInt32.le_iff_toNat_le.mp h
  rw [sampleIndices, List.length_take, (rng.perm _).length_eq]
  simpa using hle

omit [Carbonado] in
theorem sampleIndices_lt (rng : Shuffle) {samples total index : UInt32}
    (h : index ∈ sampleIndices rng samples total) : index < total := by
  have hmem := (rng.perm _).mem_iff.mp (List.mem_of_mem_take h)
  obtain ⟨n, hn, rfl⟩ := List.mem_map.mp hmem
  have hlt := List.mem_range.mp hn
  have htotal := total.toNat_lt_size
  rw [UInt32.lt_iff_toNat_lt, UInt32.toNat_ofNat_of_lt' (by omega)]
  exact hlt

theorem totalSlices_eq_zero (header : Header) : totalSlices header = 0 ↔ header.encodedLen = 0 := by
  have hpos : 0 < (Carbonado.sliceLen).toNat := UInt32.lt_iff_toNat_lt.mp Carbonado.sliceLen_pos
  have hlen := header.encodedLen.toNat_lt_size
  unfold totalSlices
  generalize hs : (Carbonado.sliceLen).toNat = s at hpos
  constructor
  · intro h
    by_contra hne
    have hpositive : 0 < header.encodedLen.toNat :=
      Nat.pos_of_ne_zero fun h0 => hne (UInt32.toNat_inj.mp h0)
    -- The quotient is between one and the length, so it is not truncated to zero.
    have hle : (header.encodedLen.toNat + s - 1) / s ≤ header.encodedLen.toNat := by
      obtain ⟨t, rfl⟩ := Nat.exists_eq_add_one.mpr hpos
      obtain ⟨e, he⟩ := Nat.exists_eq_add_one.mpr hpositive
      have hprod : (t + 1) * (e + 1) = t * e + t + e + 1 := by ring
      rw [he]
      exact Nat.div_le_of_le_mul (by omega)
    have hge : 1 ≤ (header.encodedLen.toNat + s - 1) / s :=
      (Nat.one_le_div_iff hpos).mpr (by omega)
    have hzero := congrArg UInt32.toNat h
    rw [UInt32.toNat_ofNat_of_lt' (by omega)] at hzero
    simp only [UInt32.toNat_zero] at hzero
    omega
  · intro h
    rw [h, Nat.div_eq_of_lt (by simp; omega)]
    rfl

/-- The slices that are passed to the codec are the sampled ones inside the decoded content. -/
theorem verifySampledSlices_ok {body decoded : Bytes} {baoRoot : Bytes32} {format : UInt8}
    {indices : List UInt32} {calls : List CodecCall}
    (h : verifySampledSlices body decoded baoRoot format indices = (calls, .ok ())) :
    calls = (indices.filter fun index =>
        index.toNat * Carbonado.sliceLen.toNat < decoded.length).map
          (fun index => .verifySlice body index baoRoot format) ∧
      ∀ index ∈ indices, index.toNat * Carbonado.sliceLen.toNat < decoded.length →
        Carbonado.verifySlice body index baoRoot format = .ok () := by
  induction indices generalizing calls with
  | nil =>
    cases h
    simp
  | cons index rest ih =>
    simp only [verifySampledSlices] at h
    by_cases hinside : decoded.length ≤ index.toNat * (Carbonado.sliceLen).toNat
    · have hskip : verifySampledSlice body decoded index baoRoot format = ([], .ok ()) := by
        simp [verifySampledSlice, hinside]
      rw [hskip] at h
      have hrest : verifySampledSlices body decoded baoRoot format rest = (calls, .ok ()) := by
        simpa using h
      obtain ⟨hcalls, hall⟩ := ih hrest
      refine ⟨by simpa [Nat.not_lt.mpr hinside] using hcalls, ?_⟩
      intro i hi hlt
      rcases List.mem_cons.mp hi with rfl | hi
      · omega
      · exact hall i hi hlt
    · cases hslice : Carbonado.verifySlice body index baoRoot format with
      | error err => simp [verifySampledSlice, hinside, hslice] at h
      | ok _ =>
        have hchecked : verifySampledSlice body decoded index baoRoot format =
            ([.verifySlice body index baoRoot format], .ok ()) := by
          simp [verifySampledSlice, hinside, hslice]
        rw [hchecked] at h
        obtain ⟨hcalls, hresult⟩ := Prod.mk.inj h
        obtain ⟨hmore, hall⟩ := ih (Prod.ext rfl hresult)
        refine ⟨?_, ?_⟩
        · rw [← hcalls]
          simp [hmore, Nat.lt_of_not_le hinside]
        · intro i hi hlt
          rcases List.mem_cons.mp hi with rfl | hi
          · exact hslice
          · exact hall i hi hlt

/-- The content is checked when no sampled index is skipped, and only then: the indices that were
checked are distinct members of the sample, so the whole sample when there are as many. -/
theorem contentChecked_iff {rng : Shuffle} {blob : Located} {baoRootHex : String} {rate : UInt32}
    {decodedHeader : Header} {decoded : Bytes} {sliceCalls : List CodecCall}
    (hlen : blob.header.encodedLen ≠ 0)
    (hdecode : Carbonado.decode blob.masterKey blob.encoded = .ok (decodedHeader, decoded))
    (hhash : decodedHeader.hash = blob.baoRoot)
    (hcalls : sliceCalls = ((sampleIndices rng (min rate (totalSlices blob.header))
        (totalSlices blob.header)).filter fun index =>
          index.toNat * Carbonado.sliceLen.toNat < decoded.length).map fun index =>
            .verifySlice (blob.encoded.drop Carbonado.headerLen) index blob.baoRoot blob.row.format)
    (hverified : ∀ index ∈ sampleIndices rng (min rate (totalSlices blob.header))
        (totalSlices blob.header), index.toNat * Carbonado.sliceLen.toNat < decoded.length →
          Carbonado.verifySlice (blob.encoded.drop Carbonado.headerLen) index blob.baoRoot
            blob.row.format = .ok ()) :
    ContentChecked blob (.decode blob.masterKey blob.encoded :: sliceCalls)
        ⟨baoRootHex, min rate (totalSlices blob.header), totalSlices blob.header⟩ ↔
      SamplesInside rng blob rate := by
  have hlength := sampleIndices_length rng (min_le_total rate (totalSlices blob.header))
  have hnodup := sampleIndices_nodup rng (min rate (totalSlices blob.header))
    (totalSlices blob.header)
  have hlt := fun index (h : index ∈ sampleIndices rng (min rate (totalSlices blob.header))
    (totalSlices blob.header)) => sampleIndices_lt rng h
  unfold SamplesInside
  generalize sampleIndices rng (min rate (totalSlices blob.header)) (totalSlices blob.header) =
    sample at hlength hnodup hlt hcalls hverified ⊢
  subst hcalls
  constructor
  · rintro ⟨-, -, indices, hdistinct, hcount, hall⟩
    refine ⟨hlen, ?_⟩
    intro header decoded' hdecode'
    obtain ⟨rfl, rfl⟩ : decodedHeader = header ∧ decoded = decoded' := by
      simpa [hdecode] using hdecode'
    have hsubset : indices ⊆ sample.filter fun index =>
        index.toNat * Carbonado.sliceLen.toNat < decoded.length := by
      intro index hindex
      obtain ⟨-, hcall, -⟩ := hall index hindex
      simpa using hcall
    have hle := (List.subperm_of_subset hdistinct hsubset).length_le
    have hfilter : (sample.filter fun index =>
        index.toNat * Carbonado.sliceLen.toNat < decoded.length) = sample :=
      List.filter_sublist.eq_of_length_le (by simp only at hcount; omega)
    intro index hindex
    rw [← hfilter] at hindex
    simpa using (List.mem_filter.mp hindex).2
  · rintro ⟨-, hinside⟩
    have hall := hinside decodedHeader decoded hdecode
    refine ⟨by simp, ⟨decodedHeader, decoded, hdecode, hhash⟩, sample, hnodup, hlength, ?_⟩
    intro index hindex
    refine ⟨hlt index hindex, ?_, hverified index hindex (hall index hindex)⟩
    simp [hindex, hall index hindex]

/-- A successful run reports a checked content exactly when the header declares a body and every
sampled index lies inside the decoded content.  Otherwise the run reports slices that it did not
check, or a blob that it did not decode. -/
theorem verifyCommitment_checked_iff {rng : Shuffle} {dir : DataDir} {baoRootHex : String}
    {options : VerifyOptions} {calls : List CodecCall} {result : VerifyResult}
    (h : verifyCommitment rng dir baoRootHex options = (calls, .ok result)) :
    ∃ blob, locate dir baoRootHex options = .ok blob ∧
      (ContentChecked blob calls result ↔ SamplesInside rng blob options.sampleRate) := by
  unfold verifyCommitment at h
  cases hlocate : locate dir baoRootHex options with
  | error err => simp [hlocate] at h
  | ok blob =>
    refine ⟨blob, rfl, ?_⟩
    simp only [hlocate] at h
    unfold verifyLocated at h
    by_cases hzero : totalSlices blob.header = 0
    · simp only [hzero, if_true, Prod.mk.injEq] at h
      obtain ⟨rfl, -⟩ := h
      have hlen := (totalSlices_eq_zero blob.header).mp hzero
      simp [ContentChecked, SamplesInside, hlen]
    have hlen := mt (totalSlices_eq_zero blob.header).mpr hzero
    simp only [hzero, if_false] at h
    cases hdecode : Carbonado.decode blob.masterKey blob.encoded with
    | error err => simp [hdecode] at h
    | ok pair =>
      obtain ⟨decodedHeader, decoded⟩ := pair
      simp only [hdecode] at h
      by_cases hhash : decodedHeader.hash = blob.baoRoot
      · simp only [hhash, ne_eq, not_true_eq_false, if_false] at h
        cases hslices : verifySampledSlices (blob.encoded.drop Carbonado.headerLen) decoded
          blob.baoRoot blob.row.format (sampleIndices rng
            (min options.sampleRate (totalSlices blob.header)) (totalSlices blob.header)) with
        | mk sliceCalls sliceResult =>
          cases sliceResult with
          | error err => simp [hslices] at h
          | ok _ =>
            simp only [hslices, Prod.mk.injEq, Except.ok.injEq] at h
            obtain ⟨rfl, rfl⟩ := h
            obtain ⟨hcalls, hverified⟩ := verifySampledSlices_ok hslices
            exact contentChecked_iff hlen hdecode hhash hcalls hverified
      · simp [hhash] at h

end

/-! ### A blob whose parity slices are skipped -/

def exampleRoot : Bytes32 := Bytes32.replicate 7

/-- The header of five bytes of content that format c12 expands to eight slices. -/
def exampleHeader : Header where
  payloadNonce := []
  hash := exampleRoot
  slhPublicKey := []
  format := 12
  chunkIndex := [0]
  encodedLen := 8192
  paddingLen := 4091
  metadata := none
  headerMac := [1]

theorem sliceLen_exampleCodec : (0 : UInt32) < 1024 := by
  decide

/-- A codec whose only container is a one-byte header in front of its body. -/
@[reducible]
def exampleCodec : Carbonado where
  magicno := [67]
  headerLen := 1
  sliceLen := 1024
  sliceLen_pos := sliceLen_exampleCodec
  header bytes := if bytes = [] then .error "truncated header" else .ok exampleHeader
  encode _ plaintext _ _ := .ok (0 :: plaintext)
  decode _ _ := .ok (exampleHeader, [1, 2, 3, 4, 5])
  verifySlice _ index _ _ := if index < 8 then .ok () else .error "slice out of range"
  computeHeaderMac _ _ := .ok [1]
  containsVerification format := format &&& 4 != 0
  encodeBaoHash root := Hex.encode root.val

def exampleDir : DataDir where
  path := "/data"
  store := StorageStore.empty.putCommitment (.new exampleRoot "blob.c12" 12 .inboard 0)
  masterKey := none
  carbonado := writeFile (fun _ => none) "blob.c12" (0 :: List.replicate 16 9)
  ots := fun _ => none
  pendingOts := fun _ => none
  breccia := none

/-- A source of randomness that leaves the order as it is. -/
def keepOrder : Shuffle := ⟨id, fun xs => List.Perm.refl xs⟩

theorem example_run :
    @verifyCommitment exampleCodec keepOrder exampleDir (Hex.encode exampleRoot.val) ⟨8, none⟩ =
      ([.decode publicMasterKey (0 :: List.replicate 16 9),
        .verifySlice (List.replicate 16 9) 0 exampleRoot 12],
        .ok ⟨Hex.encode exampleRoot.val, 8, 8⟩) := by
  decide +kernel

theorem verifyCommitment_checked_example :
    ∃ blob, @locate exampleCodec exampleDir (Hex.encode exampleRoot.val) ⟨8, none⟩ = .ok blob ∧
      (@ContentChecked exampleCodec blob
          [.decode publicMasterKey (0 :: List.replicate 16 9),
            .verifySlice (List.replicate 16 9) 0 exampleRoot 12]
          ⟨Hex.encode exampleRoot.val, 8, 8⟩ ↔
        @SamplesInside exampleCodec keepOrder blob 8) :=
  @verifyCommitment_checked_iff exampleCodec keepOrder exampleDir _ ⟨8, none⟩ _ _ example_run

/-- The run on the example counts eight verified slices, and one was checked. -/
theorem verifyCommitment_skips_slices :
    ∃ blob calls, @locate exampleCodec exampleDir (Hex.encode exampleRoot.val) ⟨8, none⟩ =
        .ok blob ∧
      @verifyCommitment exampleCodec keepOrder exampleDir (Hex.encode exampleRoot.val) ⟨8, none⟩ =
        (calls, .ok ⟨Hex.encode exampleRoot.val, 8, 8⟩) ∧
      ¬@ContentChecked exampleCodec blob calls ⟨Hex.encode exampleRoot.val, 8, 8⟩ := by
  let blob : Located :=
    ⟨exampleRoot, .new exampleRoot "blob.c12" 12 .inboard 0, 0 :: List.replicate 16 9,
      exampleHeader, publicMasterKey⟩
  refine ⟨blob, _, rfl, example_run, ?_⟩
  rintro ⟨-, -, indices, hdistinct, hcount, hall⟩
  have hsubset : indices ⊆ [0] := by
    intro index hindex
    obtain ⟨-, hcall, -⟩ := hall index hindex
    simp only [List.mem_cons, reduceCtorEq, CodecCall.verifySlice.injEq, List.not_mem_nil, or_false,
      false_or] at hcall
    simpa using hcall.2.1
  have hle := (List.subperm_of_subset hdistinct hsubset).length_le
  simp at hcount hle
  omega

end Lord.Storage
