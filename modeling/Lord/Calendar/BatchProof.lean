import Lord.Calendar.ConfirmedProof

/-! What the proof of a digest in its batch commits to before the batch is anchored: the path joins
the siblings without hashing, so a proof with a path does not reach the root. -/

namespace Lord.Ots

section

variable [Digests]

mutual

/-- The attestations of a tree that is executed from a digest, with the digests that they attest to. -/
def Step.reached : Step → Bytes → List (Attestation × Bytes)
  | .mk (.op op) _ next, digest => reachedList next (op.execute digest)
  | .mk .fork _ next, digest => reachedList next digest
  | .mk (.attestation attestation) _ next, digest =>
    (attestation, digest) :: reachedList next digest

def Step.reachedList : List Step → Bytes → List (Attestation × Bytes)
  | [], _ => []
  | child :: rest, digest => child.reached digest ++ reachedList rest digest

end

/-- A chain reaches its attestation with the digest that its operations make. -/
theorem Step.reached_chain (entries : List (Op × Bytes)) (attestation : Attestation)
    (output start digest : Bytes) :
    ((chainHead entries (.mk (.attestation attestation) output [])).reexecute start).reached digest =
      [(attestation, executeAll (entries.map Prod.fst) digest)] := by
  induction entries generalizing start digest with
  | nil => rfl
  | cons entry rest ih =>
    simp only [chainHead, reexecute, reexecuteList, reached, reachedList, ih, List.append_nil]
    rfl

/-- The pending attestations of the tree have URIs that the parser reads. -/
def Step.UrisValid (step : Step) : Prop :=
  ∀ digest entry, entry ∈ step.reached digest → ∀ uri, entry.1 = .pending uri → validUri uri = true

theorem Step.UrisValid.op {op : Op} {output : Bytes} {child : Step} (h : child.UrisValid) :
    (Step.mk (.op op) output [child]).UrisValid := by
  intro digest entry hentry
  simp only [reached, reachedList, List.append_nil] at hentry
  exact h _ entry hentry

theorem Step.UrisValid.fork {output : Bytes} {next : List Step} (h : ∀ child ∈ next, child.UrisValid) :
    (Step.mk .fork output next).UrisValid := by
  intro digest entry hentry
  simp only [reached] at hentry
  induction next with
  | nil => cases hentry
  | cons child rest ih =>
    rcases List.mem_append.mp hentry with hentry | hentry
    · exact h child List.mem_cons_self digest entry hentry
    · exact ih (fun other hother => h other (List.mem_cons_of_mem _ hother)) hentry

end

namespace Format

theorem readAttestation_uri {bytes rest : Bytes} {uri : String}
    (h : readAttestation bytes = some (.pending uri, rest)) : validUri uri = true := by
  unfold readAttestation at h
  cases hdata : readData (bytes.drop 8) with
  | none => simp [hdata] at h
  | some data =>
    cases hpayload : readPayload (bytes.take 8) data.1 with
    | none => simp [hdata, hpayload] at h
    | some attestation =>
      obtain rfl : attestation = .pending uri := by
        simp only [hdata, hpayload, Option.some.injEq, Prod.mk.injEq] at h
        exact h.1
      unfold readPayload at hpayload
      split at hpayload
      · split at hpayload <;> simp at hpayload
      · split at hpayload
        · split at hpayload
          · split at hpayload
            · split at hpayload
              · rename_i hvalid
                cases hpayload
                exact hvalid
              · cases hpayload
            · cases hpayload
          · cases hpayload
        · simp at hpayload

variable [Digests]

/-- The parser reads no other URIs. -/
theorem readStep_uris (fuel : Nat) :
    (∀ digest bytes step rest, readStep fuel digest bytes = some (step, rest) → step.UrisValid) ∧
      ∀ digest bytes next rest, readBranches fuel digest bytes = some (next, rest) →
        ∀ child ∈ next, child.UrisValid := by
  induction fuel with
  | zero => exact ⟨fun _ _ _ _ h => by simp [readStep] at h,
    fun _ _ _ _ h => by simp [readBranches] at h⟩
  | succ fuel ih =>
    obtain ⟨ihstep, ihbranches⟩ := ih
    constructor
    · intro digest bytes step rest h
      cases bytes with
      | nil => simp [readStep] at h
      | cons tag bytes =>
        simp only [readStep] at h
        split at h
        · cases hread : readAttestation bytes with
          | none => simp [hread] at h
          | some read =>
            obtain ⟨attestation, after⟩ := read
            simp only [hread, Option.some.injEq, Prod.mk.injEq] at h
            obtain ⟨rfl, -⟩ := h
            intro start entry hentry uri huri
            obtain rfl : entry = (attestation, start) := by
              simpa [Step.reached, Step.reachedList] using hentry
            subst huri
            exact readAttestation_uri hread
        · split at h
          · cases hchild : readStep fuel digest bytes with
            | none => simp [hchild] at h
            | some read =>
              obtain ⟨child, after⟩ := read
              cases hbranches : readBranches fuel digest after with
              | none => simp [hchild, hbranches] at h
              | some read =>
                obtain ⟨branches, behind⟩ := read
                simp only [hchild, hbranches, Option.some.injEq, Prod.mk.injEq] at h
                obtain ⟨rfl, -⟩ := h
                refine Step.UrisValid.fork fun other hother => ?_
                rcases List.mem_cons.mp hother with rfl | hother
                · exact ihstep _ _ _ _ hchild
                · exact ihbranches _ _ _ _ hbranches other hother
          · cases hop : readOp tag bytes with
            | none => simp [hop] at h
            | some read =>
              obtain ⟨op, after⟩ := read
              cases hchild : readStep fuel (op.execute digest) after with
              | none => simp [hop, hchild] at h
              | some read =>
                obtain ⟨child, behind⟩ := read
                simp only [hop, hchild, Option.some.injEq, Prod.mk.injEq] at h
                obtain ⟨rfl, -⟩ := h
                exact (ihstep _ _ _ _ hchild).op
    · intro digest bytes next rest h
      cases bytes with
      | nil => simp [readBranches] at h
      | cons tag bytes =>
        simp only [readBranches] at h
        split at h
        · cases hchild : readStep fuel digest bytes with
          | none => simp [hchild] at h
          | some read =>
            obtain ⟨child, after⟩ := read
            cases hbranches : readBranches fuel digest after with
            | none => simp [hchild, hbranches] at h
            | some read =>
              obtain ⟨branches, behind⟩ := read
              simp only [hchild, hbranches, Option.some.injEq, Prod.mk.injEq] at h
              obtain ⟨rfl, -⟩ := h
              intro other hother
              rcases List.mem_cons.mp hother with rfl | hother
              · exact ihstep _ _ _ _ hchild
              · exact ihbranches _ _ _ _ hbranches other hother
        · cases hchild : readStep fuel digest (tag :: bytes) with
          | none => simp [hchild] at h
          | some read =>
            obtain ⟨child, after⟩ := read
            simp only [hchild, Option.some.injEq, Prod.mk.injEq] at h
            obtain ⟨rfl, -⟩ := h
            intro other hother
            rw [List.mem_singleton.mp hother]
            exact ihstep _ _ _ _ hchild

theorem readFile_uris {bytes : Bytes} {file : DetachedTimestampFile} (h : readFile bytes = some file) :
    file.timestamp.firstStep.UrisValid := by
  unfold readFile at h
  split at h
  swap
  · cases h
  cases hbytes : bytes.drop 32 with
  | nil => simp [hbytes] at h
  | cons tag rest =>
    cases htype : readDigestType tag with
    | none => simp [hbytes, htype] at h
    | some digestType =>
      simp only [hbytes, htype] at h
      split at h
      swap
      · cases h
      cases hstep : readStep (rest.drop digestType.digestLen).length (rest.take digestType.digestLen)
          (rest.drop digestType.digestLen) with
      | none =>
        rw [hstep] at h
        cases h
      | some read =>
        obtain ⟨step, after⟩ := read
        cases after with
        | cons =>
          rw [hstep] at h
          cases h
        | nil =>
          simp only [hstep, Option.some.injEq] at h
          obtain rfl := h
          exact (readStep_uris _).1 _ _ _ _ hstep

end Format

end Lord.Ots

namespace Lord.Calendar

open Ots Ots.Step Merkle

section

variable [Digests]

/-- The path of a digest through its batch. -/
theorem merklePath_batch {batch : List Bytes32} {index : Nat} (h : index < batch.length) :
    merklePath (batch.map Subtype.val) index =
      some (merklePathLoop (batch.map Subtype.val) index) := by
  rw [merklePath, if_neg]
  rw [List.length_map]
  omega

/-! ### The proof of a digest in its batch -/

variable [OtsCodec]

/-- The proof is built, and what is read back of it, executed from the digest, reaches a pending
attestation of the calendar with the root of the batch. -/
def CommitsToBatch (batch : List Bytes32) (index : Nat) (uri : String) : Prop :=
  ∃ digest root proof file,
    batch[index]? = some digest ∧
    otsMerkleRoot (batch.map Subtype.val) = some root ∧
    merkleBatchProofBytes digest.val (batch.map Subtype.val) index uri = .ok proof ∧
    OtsCodec.fromReader proof = .ok file ∧
    (.pending uri, root) ∈ file.timestamp.firstStep.reached digest.val

/-- The parser checks the URI of a pending attestation. -/
def ChecksUris : Prop :=
  ∀ bytes file, OtsCodec.fromReader bytes = .ok file → file.timestamp.firstStep.UrisValid

omit [OtsCodec] in
/-- The path of a batch that fits into memory is not too deep for the parser. -/
theorem readable_path {batch : List Bytes32} {index : Nat} (h : index < batch.length)
    (hmemory : batch.length ≤ 2 ^ 64) :
    Readable ((merklePathLoop (batch.map Subtype.val) index).map pathOp) := by
  have hindex : index < (batch.map Subtype.val).length := by rwa [List.length_map]
  refine ⟨?_, ?_⟩
  · intro op hop
    obtain ⟨entry, hentry, rfl⟩ := List.mem_map.mp hop
    have hlength := length_sibling h entry hentry
    have hne : entry.2 ≠ [] := by
      rintro hnil
      rw [hnil] at hlength
      cases hlength
    have hshort : entry.2.length ≤ maxOpLength := by
      rw [hlength]
      decide
    unfold pathOp
    split
    · exact ⟨hne, hshort⟩
    · exact ⟨hne, hshort⟩
  · have hdepth := @length_path_le _ catSha256d _ (batch.map Subtype.val) index 64
      (by rwa [List.length_map])
    rw [List.length_map, merklePathLoop_eq hindex, recursionLimit]
    omega

variable [LawfulOtsCodec]

/-- The proof is written, and what is read back of it attests to the unhashed path. -/
theorem merkleBatchProofBytes_reaches {batch : List Bytes32} {index : Nat} {digest : Bytes32}
    {uri : String} (hdigest : batch[index]? = some digest) (hmemory : batch.length ≤ 2 ^ 64)
    (huri : validUri uri = true) :
    ∃ proof file, merkleBatchProofBytes digest.val (batch.map Subtype.val) index uri = .ok proof ∧
      OtsCodec.fromReader proof = .ok file ∧
      file.timestamp.firstStep.reached digest.val =
        [(.pending uri, unhashed digest.val (merklePathLoop (batch.map Subtype.val) index))] := by
  obtain ⟨hindex, -⟩ := List.getElem?_eq_some_iff.mp hdigest
  have hreadable := readable_path hindex hmemory
  generalize hpath : merklePathLoop (batch.map Subtype.val) index = path at hreadable ⊢
  generalize hpending : Step.mk (.attestation (.pending uri)) digest.val [] = pending
  have hops : (nestEntries path.reverse digest.val).map Prod.fst = path.map pathOp := by
    rw [nestEntries_ops, List.reverse_reverse]
  have hfirst : (nestPath path.reverse digest.val [pending]).headD pending =
      chainHead (nestEntries path.reverse digest.val) pending := by
    rw [nestPath_eq, chain_eq]
    rfl
  have hbuilt : merkleBatchProofBytes digest.val (batch.map Subtype.val) index uri =
      serializeProof ⟨.sha256, digest.val, chainHead (nestEntries path.reverse digest.val) pending⟩ := by
    rw [merkleBatchProofBytes, merklePath_batch hindex, ← hfirst, ← hpending, ← hpath]
    rfl
  have hshaped := @wellShapedList_chain (nestEntries path.reverse digest.val) pending
  have hdepth := depthList_chain (nestEntries path.reverse digest.val) pending
  rw [chain_eq] at hshaped hdepth
  rw [← hops] at hreadable
  have hlimit := hreadable.2
  rw [List.length_map] at hlimit
  subst hpending
  simp only [wellShapedList, and_true, WellShaped, Attestation.WellFormed, huri] at hshaped
  simp only [depthList, depth] at hdepth
  have hwell := hshaped.mpr fun entry hentry => hreadable.1 entry.1 (List.mem_map_of_mem hentry)
  obtain ⟨bytes, hwrite, hread⟩ := LawfulOtsCodec.read_write
    ⟨.sha256, digest.val, chainHead (nestEntries path.reverse digest.val)
      (.mk (.attestation (.pending uri)) digest.val [])⟩
    digest.property hwell (by dsimp only; omega)
  refine ⟨bytes, _, by rw [hbuilt, serializeProof, hwrite], hread, ?_⟩
  dsimp only
  rw [reached_chain, hops]
  rfl

/-- The proof of a digest commits to its batch exactly when the batch has no other digest and the URI
is one that the parser reads. -/
theorem merkleBatchProof_commits_iff {batch : List Bytes32} {index : Nat} (uri : String)
    (hindex : index < batch.length) (hmemory : batch.length ≤ 2 ^ 64) (hchecks : ChecksUris) :
    CommitsToBatch batch index uri ↔ batch.length = 1 ∧ validUri uri = true := by
  have hdigest : batch[index]? = some (batch.get ⟨index, hindex⟩) := by
    rw [List.getElem?_eq_getElem hindex]
    rfl
  constructor
  · rintro ⟨digest, root, proof, file, hat, hroot, hproof, hread, hreached⟩
    have huri := hchecks proof file hread digest.val _ hreached uri rfl
    refine ⟨?_, huri⟩
    obtain ⟨proof', file', hproof', hread', hattested⟩ :=
      merkleBatchProofBytes_reaches hat hmemory huri
    obtain rfl : proof = proof' := Except.ok.inj (hproof.symm.trans hproof')
    obtain rfl : file = file' := Except.ok.inj (hread.symm.trans hread')
    rw [hattested, List.mem_singleton, Prod.mk.injEq] at hreached
    have hlength := length_otsMerkleRoot hroot
    rw [hreached.2, length_unhashed (length_sibling hindex), digest.property] at hlength
    rw [← merklePathLoop_eq_nil_iff hindex, ← List.length_eq_zero_iff]
    omega
  · rintro ⟨hone, huri⟩
    obtain ⟨proof, file, hproof, hread, hattested⟩ :=
      merkleBatchProofBytes_reaches hdigest hmemory huri
    have hnil := (merklePathLoop_eq_nil_iff hindex).mpr hone
    have hroot : otsMerkleRoot (batch.map Subtype.val) = some (batch.get ⟨index, hindex⟩).val := by
      obtain ⟨only, rfl⟩ := List.length_eq_one_iff.mp hone
      obtain rfl : index = 0 := by simpa using hindex
      rw [otsMerkleRoot, if_neg (by simp), otsRootLoop, if_neg (by simp)]
      rfl
    refine ⟨_, _, proof, file, hdigest, hroot, hproof, hread, ?_⟩
    rw [hattested, hnil]
    exact List.mem_singleton.mpr rfl

end

/-! ### A batch of one and a batch of two -/

section

attribute [local instance] Format.sha256Digests Format.sha256Codec

theorem checksUris_format : ChecksUris := by
  intro bytes file hread
  cases hfile : Format.readFile bytes with
  | none =>
    change okOr (Format.readFile bytes) _ = _ at hread
    rw [hfile] at hread
    cases hread
  | some found =>
    change okOr (Format.readFile bytes) _ = _ at hread
    rw [hfile] at hread
    cases hread
    exact Format.readFile_uris hfile

theorem merkleBatchProof_commits_one :
    CommitsToBatch [repeatedDigest 7] 0 "http://127.0.0.1:14788" := by
  have := Format.codec_lawful
  exact (merkleBatchProof_commits_iff "http://127.0.0.1:14788" (by decide) (by decide)
    checksUris_format).mpr ⟨rfl, by decide +kernel⟩

/-- The proof of a digest of a batch of two attests to 64 bytes. -/
theorem not_merkleBatchProof_commits :
    ¬CommitsToBatch [repeatedDigest 7, repeatedDigest 8] 0 "http://127.0.0.1:14788" := by
  have := Format.codec_lawful
  rintro ⟨digest, root, proof, file, hat, hroot, hproof, hread, hreached⟩
  obtain ⟨proof', file', hproof', hread', hattested⟩ :=
    merkleBatchProofBytes_reaches hat (by decide)
      (show validUri "http://127.0.0.1:14788" = true by decide +kernel)
  obtain rfl : proof = proof' := Except.ok.inj (hproof.symm.trans hproof')
  obtain rfl : file = file' := Except.ok.inj (hread.symm.trans hread')
  rw [hattested, List.mem_singleton, Prod.mk.injEq] at hreached
  have hlength := length_otsMerkleRoot hroot
  rw [hreached.2, length_unhashed (length_sibling (by decide)), digest.property] at hlength
  have hnil : merklePathLoop ([repeatedDigest 7, repeatedDigest 8].map Subtype.val) 0 = [] := by
    rw [← List.length_eq_zero_iff]
    omega
  cases (merklePathLoop_eq_nil_iff (by decide)).mp hnil

end

end Lord.Calendar
