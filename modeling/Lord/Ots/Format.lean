import Lord.Ots.Codec
import Lord.Lib.Sha256
import Lord.Lib.Utf8
import Lord.Lib.Varint

/-! The byte format of detached timestamp files: a tag for every step, `0xff` in front of every
branch of a fork but the last, and counted data.  It satisfies what is relied on of the crate. -/

namespace Lord.Ots.Format

/-- Counted data. -/
def writeData (data : Bytes) : Bytes := Varint.encode data.length ++ data

def readData (bytes : Bytes) : Option (Bytes × Bytes) :=
  match Varint.decode bytes with
  | none => none
  | some (count, rest) =>
    if rest.length < count then none else some (rest.take count, rest.drop count)

@[simp] theorem readData_writeData (data rest : Bytes) :
    readData (writeData data ++ rest) = some (data, rest) := by
  simp [readData, writeData]

def writeOp : Op → Bytes
  | .sha1 => [0x02]
  | .ripemd160 => [0x03]
  | .sha256 => [0x08]
  | .append data => 0xf0 :: writeData data
  | .prepend data => 0xf1 :: writeData data
  | .reverse => [0xf2]
  | .hexlify => [0xf3]

/-- The operation behind a tag; its data is not empty and not too long. -/
def readOp (tag : UInt8) (bytes : Bytes) : Option (Op × Bytes) :=
  if tag = 0x02 then some (.sha1, bytes)
  else if tag = 0x03 then some (.ripemd160, bytes)
  else if tag = 0x08 then some (.sha256, bytes)
  else if tag = 0xf0 then
    match readData bytes with
    | some (data, rest) => if data = [] ∨ maxOpLength < data.length then none else some (.append data, rest)
    | none => none
  else if tag = 0xf1 then
    match readData bytes with
    | some (data, rest) => if data = [] ∨ maxOpLength < data.length then none else some (.prepend data, rest)
    | none => none
  else if tag = 0xf2 then some (.reverse, bytes)
  else if tag = 0xf3 then some (.hexlify, bytes)
  else none

def writeAttestation : Attestation → Bytes
  | .bitcoin height => bitcoinTag ++ writeData (Varint.encode height.toNat)
  | .pending uri => pendingTag ++ writeData (writeData (Utf8.encode uri))
  | .unknown tag data => tag ++ writeData data

/-- The payload of an attestation behind its tag. -/
def readPayload (tag payload : Bytes) : Option Attestation :=
  if tag = bitcoinTag then
    match Varint.decode payload with
    | some (height, _) => some (.bitcoin (UInt64.ofNat height))
    | none => none
  else if tag = pendingTag then
    match readData payload with
    | some (data, _) =>
      match Utf8.decode data with
      | some uri => if validUri uri then some (.pending uri) else none
      | none => none
    | none => none
  else
    some (.unknown tag payload)

def readAttestation (bytes : Bytes) : Option (Attestation × Bytes) :=
  match readData (bytes.drop 8) with
  | some (payload, rest) =>
    match readPayload (bytes.take 8) payload with
    | some attestation => some (attestation, rest)
    | none => none
  | none => none

mutual

def writeStep : Step → Bytes
  | .mk (.attestation attestation) _ _ => 0x00 :: writeAttestation attestation
  | .mk (.op op) _ next => writeOp op ++ writeNext next
  | .mk .fork _ next => writeNext next

/-- The branches of a fork, or the successor of an operation. -/
def writeNext : List Step → Bytes
  | [] => []
  | [last] => writeStep last
  | child :: rest => 0xff :: (writeStep child ++ writeNext rest)

end

section

variable [Digests]

mutual

/-- The tree in front of the bytes, with every output computed from the running digest. -/
def readStep : Nat → Bytes → Bytes → Option (Step × Bytes)
  | 0, _, _ => none
  | _, _, [] => none
  | fuel + 1, digest, tag :: bytes =>
    if tag = 0x00 then
      match readAttestation bytes with
      | some (attestation, rest) => some (.mk (.attestation attestation) digest [], rest)
      | none => none
    else if tag = 0xff then
      match readStep fuel digest bytes with
      | some (child, rest) =>
        match readBranches fuel digest rest with
        | some (branches, rest) => some (.mk .fork digest (child :: branches), rest)
        | none => none
      | none => none
    else
      match readOp tag bytes with
      | some (op, rest) =>
        match readStep fuel (op.execute digest) rest with
        | some (child, rest) => some (.mk (.op op) (op.execute digest) [child], rest)
        | none => none
      | none => none

/-- The branches of a fork behind its first one. -/
def readBranches : Nat → Bytes → Bytes → Option (List Step × Bytes)
  | 0, _, _ => none
  | _, _, [] => none
  | fuel + 1, digest, tag :: bytes =>
    if tag = 0xff then
      match readStep fuel digest bytes with
      | some (child, rest) =>
        match readBranches fuel digest rest with
        | some (branches, rest) => some (child :: branches, rest)
        | none => none
      | none => none
    else
      match readStep fuel digest (tag :: bytes) with
      | some (last, rest) => some ([last], rest)
      | none => none

end

end

def magic : Bytes :=
  [0x00, 0x4f, 0x70, 0x65, 0x6e, 0x54, 0x69, 0x6d, 0x65, 0x73, 0x74, 0x61, 0x6d, 0x70, 0x73, 0x00,
    0x00, 0x50, 0x72, 0x6f, 0x6f, 0x66, 0x00, 0xbf, 0x89, 0xe2, 0xe8, 0x84, 0xe8, 0x92, 0x94, 0x01]

def digestTag : DigestType → UInt8
  | .sha1 => 0x02
  | .ripemd160 => 0x03
  | .sha256 => 0x08

def readDigestType (tag : UInt8) : Option DigestType :=
  if tag = 0x02 then some .sha1
  else if tag = 0x03 then some .ripemd160
  else if tag = 0x08 then some .sha256
  else none

def writeFile (file : DetachedTimestampFile) : Bytes :=
  magic ++ digestTag file.digestType :: (file.timestamp.startDigest ++
    writeStep file.timestamp.firstStep)

def readFile [Digests] (bytes : Bytes) : Option DetachedTimestampFile :=
  if bytes.take 32 = magic then
    match bytes.drop 32 with
    | [] => none
    | tag :: rest =>
      match readDigestType tag with
      | none => none
      | some digestType =>
        let digest := rest.take digestType.digestLen
        let tree := rest.drop digestType.digestLen
        if digest.length = digestType.digestLen then
          match readStep tree.length digest tree with
          | some (firstStep, []) => some ⟨digestType, digest, firstStep⟩
          | _ => none
        else
          none
  else
    none

/-- The codec of the format. -/
@[reducible]
def codec [Digests] : OtsCodec where
  toWriter file := .ok (writeFile file)
  fromReader bytes := okOr (readFile bytes) "malformed timestamp file"

/-! ### The round trip -/

theorem readOp_writeOp {op : Op} (h : op.WellFormed) (bytes : Bytes) :
    ∃ tag rest, writeOp op ++ bytes = tag :: rest ∧ tag ≠ 0x00 ∧ tag ≠ 0xff ∧
      readOp tag rest = some (op, bytes) := by
  cases op with
  | append data =>
    obtain ⟨hdata, hlen⟩ : data ≠ [] ∧ data.length ≤ maxOpLength := h
    exact ⟨_, _, rfl, by decide, by decide, by simp [readOp, hdata, Nat.not_lt.mpr hlen]⟩
  | prepend data =>
    obtain ⟨hdata, hlen⟩ : data ≠ [] ∧ data.length ≤ maxOpLength := h
    exact ⟨_, _, rfl, by decide, by decide, by simp [readOp, hdata, Nat.not_lt.mpr hlen]⟩
  | _ => exact ⟨_, _, rfl, by decide, by decide, rfl⟩

theorem readAttestation_writeAttestation {attestation : Attestation} (h : attestation.WellFormed)
    (bytes : Bytes) :
    readAttestation (writeAttestation attestation ++ bytes) = some (attestation, bytes) := by
  have htag : ∀ tag payload : Bytes, tag.length = 8 →
      readAttestation (tag ++ writeData payload ++ bytes) =
        (readPayload tag payload).map fun attestation => (attestation, bytes) := by
    intro tag payload htag
    have htake : (tag ++ (writeData payload ++ bytes)).take 8 = tag := by
      rw [List.take_append_of_le_length (by omega), List.take_of_length_le (by omega)]
    have hdrop : (tag ++ (writeData payload ++ bytes)).drop 8 = writeData payload ++ bytes := by
      rw [← htag, List.drop_left]
    rw [List.append_assoc, readAttestation, htake, hdrop, readData_writeData]
    cases hpayload : readPayload tag payload <;> simp [hpayload]
  cases attestation with
  | bitcoin height =>
    rw [writeAttestation, htag _ _ (by decide), readPayload, if_pos rfl,
      ← List.append_nil (Varint.encode height.toNat), Varint.decode_encode]
    simp
  | pending uri =>
    have huri : validUri uri = true := h
    rw [writeAttestation, htag _ _ (by decide), readPayload, if_neg (by decide), if_pos rfl,
      ← List.append_nil (writeData (Utf8.encode uri)), readData_writeData]
    simp [huri]
  | unknown tag data =>
    obtain ⟨hlen, hbitcoin, hpending⟩ := h
    rw [writeAttestation, htag _ _ hlen, readPayload, if_neg hbitcoin, if_neg hpending]
    rfl

/-- Only a fork starts with its tag. -/
theorem writeStep_head {step : Step} (h : step.WellShaped) (hfork : step.data ≠ .fork)
    (bytes : Bytes) : ∃ tag rest, writeStep step ++ bytes = tag :: rest ∧ tag ≠ 0xff := by
  obtain ⟨data, output, next⟩ := step
  cases data with
  | attestation attestation => exact ⟨0x00, _, rfl, by decide⟩
  | op op =>
    obtain ⟨tag, rest, heq, -, htag, -⟩ := readOp_writeOp h.1 (writeNext next ++ bytes)
    exact ⟨tag, rest, by rw [writeStep, List.append_assoc, heq], htag⟩
  | fork => exact absurd rfl hfork

section

variable [Digests]

/-- The branches read back when each of them does and the last is not a fork. -/
theorem readBranches_writeNext {next : List Step} (hne : next ≠ [])
    (hlast : ∀ last, next.getLast? = some last → last.data ≠ .fork)
    (hshaped : ∀ child ∈ next, child.WellShaped)
    (hread : ∀ child ∈ next, ∀ digest rest fuel, child.size ≤ fuel →
      readStep fuel digest (writeStep child ++ rest) = some (child.reexecute digest, rest))
    (digest rest : Bytes) (fuel : Nat) (hfuel : Step.sizeList next + 1 ≤ fuel) :
    readBranches fuel digest (writeNext next ++ rest) =
      some (Step.reexecuteList next digest, rest) := by
  induction next generalizing fuel with
  | nil => exact absurd rfl hne
  | cons child others ih =>
    obtain ⟨fuel, rfl⟩ : ∃ f, fuel = f + 1 := ⟨fuel - 1, by omega⟩
    simp only [Step.sizeList] at hfuel
    have hchild := hread child (by simp) digest
    cases others with
    | nil =>
      obtain ⟨tag, bytes, heq, htag⟩ :=
        writeStep_head (hshaped child (by simp)) (hlast child rfl) rest
      have hstep := hchild rest fuel (by omega)
      rw [heq] at hstep
      rw [writeNext, heq]
      simp [readBranches, htag, hstep, Step.reexecuteList]
    | cons second others =>
      have hothers := ih (by simp) (by simpa using hlast)
        (fun c hc => hshaped c (List.mem_cons_of_mem _ hc))
        (fun c hc => hread c (List.mem_cons_of_mem _ hc)) fuel (by
          cases child
          simp only [Step.size] at hfuel
          omega)
      have hstep := hchild (writeNext (second :: others) ++ rest) fuel (by omega)
      rw [writeNext, List.cons_append, List.append_assoc, readBranches, if_pos rfl, hstep]
      simp only [hothers, Step.reexecuteList]
      simp

/-- A well-shaped tree reads back with its outputs computed. -/
theorem readStep_writeStep {step : Step} (h : step.WellShaped) (digest rest : Bytes) (fuel : Nat)
    (hfuel : step.size ≤ fuel) :
    readStep fuel digest (writeStep step ++ rest) = some (step.reexecute digest, rest) := by
  induction step generalizing digest rest fuel with
  | mk data output next ih =>
    obtain ⟨fuel, rfl⟩ : ∃ f, fuel = f + 1 := ⟨fuel - 1, by simp only [Step.size] at hfuel; omega⟩
    simp only [Step.size, Nat.add_le_add_iff_right] at hfuel
    cases data with
    | attestation attestation =>
      obtain ⟨hformed, rfl⟩ := h
      rw [writeStep, List.cons_append, readStep, if_pos rfl,
        readAttestation_writeAttestation hformed]
      simp [Step.reexecute, Step.reexecuteList]
    | op op =>
      obtain ⟨hformed, hlen, hshaped⟩ := h
      obtain ⟨child, rfl⟩ := List.length_eq_one_iff.mp hlen
      obtain ⟨tag, bytes, heq, hattest, hfork, hop⟩ :=
        readOp_writeOp hformed (writeStep child ++ rest)
      have hchild := ih child (by simp) hshaped.1 (op.execute digest) rest fuel
        (by simp only [Step.sizeList] at hfuel; omega)
      rw [writeStep, writeNext, List.append_assoc, heq, readStep, if_neg hattest, if_neg hfork, hop]
      simp [hchild, Step.reexecute, Step.reexecuteList]
    | fork =>
      obtain ⟨hlen, hlast, hshaped⟩ := h
      rw [Step.wellShapedList_iff] at hshaped
      obtain _ | ⟨first, _ | ⟨second, others⟩⟩ := next
      · cases hlen
      · simp at hlen
      · have hfirst := ih first (by simp) (hshaped first (by simp)) digest
          (writeNext (second :: others) ++ rest) fuel
          (by simp only [Step.sizeList] at hfuel; omega)
        have hothers := readBranches_writeNext (List.cons_ne_nil second others)
          (by simpa using hlast) (fun c hc => hshaped c (List.mem_cons_of_mem _ hc))
          (fun c hc digest rest fuel hsize => ih c (List.mem_cons_of_mem _ hc)
            (hshaped c (List.mem_cons_of_mem _ hc)) digest rest fuel hsize)
          digest rest fuel (by
            cases first
            simp only [Step.sizeList, Step.size] at hfuel ⊢
            omega)
        rw [writeStep, writeNext, List.cons_append, List.append_assoc, readStep,
          if_neg (by decide), if_pos rfl, hfirst]
        · simp only [hothers, Step.reexecute, Step.reexecuteList]
        · simp

omit [Digests] in
/-- Every step of a well-shaped tree is at least one byte. -/
theorem size_le_length {step : Step} (h : step.WellShaped) :
    step.size ≤ (writeStep step).length := by
  induction step with
  | mk data output next ih =>
    have hnext : ∀ next : List Step, next ≠ [] →
        (∀ child ∈ next, child.size ≤ (writeStep child).length) →
        Step.sizeList next + (next.length - 1) ≤ (writeNext next).length := by
      intro next hne hsize
      induction next with
      | nil => exact absurd rfl hne
      | cons child others ih =>
        have hchild := hsize child (by simp)
        cases others with
        | nil => simpa [writeNext, Step.sizeList] using hchild
        | cons second others =>
          have hothers := ih (by simp) fun c hc => hsize c (List.mem_cons_of_mem _ hc)
          rw [writeNext]
          · simp only [Step.sizeList, List.length_cons, List.length_append] at hothers ⊢
            omega
          · simp
    cases data with
    | attestation attestation =>
      obtain ⟨-, rfl⟩ := h
      simp [Step.size, Step.sizeList, writeStep]
    | op op =>
      obtain ⟨hformed, hlen, hshaped⟩ := h
      rw [Step.wellShapedList_iff] at hshaped
      obtain ⟨tag, bytes, heq, -⟩ := readOp_writeOp hformed []
      have hop := congrArg List.length heq
      have hsize := hnext next (by rintro rfl; simp at hlen)
        fun child hchild => ih child hchild (hshaped child hchild)
      simp only [List.append_nil, List.length_cons] at hop
      simp only [Step.size, writeStep, List.length_append]
      omega
    | fork =>
      obtain ⟨hlen, -, hshaped⟩ := h
      rw [Step.wellShapedList_iff] at hshaped
      have hsize := hnext next (by rintro rfl; simp at hlen)
        fun child hchild => ih child hchild (hshaped child hchild)
      simp only [Step.size, writeStep]
      omega

theorem readFile_writeFile {file : DetachedTimestampFile}
    (hdigest : file.timestamp.startDigest.length = file.digestType.digestLen)
    (h : file.timestamp.firstStep.WellShaped) :
    readFile (writeFile file) = some ⟨file.digestType, file.timestamp.startDigest,
      file.timestamp.firstStep.reexecute file.timestamp.startDigest⟩ := by
  obtain ⟨digestType, digest, firstStep⟩ := file
  dsimp only at hdigest h ⊢
  have htype : readDigestType (digestTag digestType) = some digestType := by
    cases digestType <;> rfl
  have htake : (writeFile ⟨digestType, digest, firstStep⟩).take 32 = magic := by
    rw [writeFile, List.take_append_of_le_length (by decide), List.take_of_length_le (by decide)]
  have hdrop : (writeFile ⟨digestType, digest, firstStep⟩).drop 32 =
      digestTag digestType :: (digest ++ writeStep firstStep) := by
    rw [writeFile, show (32 : Nat) = magic.length by decide, List.drop_left]
  have hstep := readStep_writeStep h digest [] _ (size_le_length h)
  rw [List.append_nil] at hstep
  rw [readFile, if_pos htake, hdrop]
  simp [htype, ← hdigest, hstep]

/-- The format satisfies what is relied on of the crate; it has no limit of depth. -/
theorem codec_lawful : @LawfulOtsCodec _ codec :=
  @LawfulOtsCodec.mk _ codec
    (fun file hdigest h _ => ⟨writeFile file, rfl, by
      show okOr (readFile (writeFile file)) _ = _
      rw [readFile_writeFile hdigest h]
      rfl⟩)
    (by
      intro file hread
      have hnone : readFile [] = none := by
        rw [readFile, if_neg (by decide)]
      change okOr (readFile []) _ = _ at hread
      rw [hnone] at hread
      cases hread)

end

/-- SHA-256; the other two digest functions are left out. -/
@[reducible]
def sha256Digests : Digests := ⟨id, Sha256.hash, id, Sha256.length_hash⟩

/-- The codec of the format over SHA-256. -/
@[reducible]
def sha256Codec : OtsCodec := @codec sha256Digests

end Lord.Ots.Format
