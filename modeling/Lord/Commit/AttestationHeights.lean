import Lord.Commit.AttestationPaths
import Lord.Commit.Upgrade
import Lord.Ots.Format

/-! The two readings of a proof's Bitcoin height: the height that verification confirms, and the height
of the first Bitcoin attestation, which is what the log records. -/

namespace Lord.Commit

open Ots
open AttestationVerifyStatus (confirmed)

/-- The path leads to a Bitcoin attestation of the height, whatever stands on the way. -/
inductive BitcoinPath : Step → List Nat → UInt64 → Prop
  | attestation {height : UInt64} {output : Bytes} {next : List Step} :
      BitcoinPath (.mk (.attestation (.bitcoin height)) output next) [] height
  | next {data : StepData} {output : Bytes} {next : List Step} {i : Nat} {child : Step}
      {path : List Nat} {height : UInt64} :
      next[i]? = some child → BitcoinPath child path height →
      BitcoinPath (.mk data output next) (i :: path) height

/-- The leftmost Bitcoin attestation is of this height. -/
def LeftmostBitcoin (step : Step) (height : UInt64) : Prop :=
  ∃ path, BitcoinPath step path height ∧ ∀ other h, BitcoinPath step other h → path ≤ other

theorem BitcoinPath.unique {step : Step} {path : List Nat} {h k : UInt64}
    (left : BitcoinPath step path h) (right : BitcoinPath step path k) : h = k := by
  induction left with
  | attestation => cases right; rfl
  | next hchild _ ih =>
    cases right with
    | next hchild' hpath =>
      rw [hchild] at hchild'
      cases hchild'
      exact ih hpath

theorem LeftmostBitcoin.unique {step : Step} {h k : UInt64} (left : LeftmostBitcoin step h)
    (right : LeftmostBitcoin step k) : h = k := by
  obtain ⟨p, hp, hleast⟩ := left
  obtain ⟨q, hq, hleast'⟩ := right
  obtain rfl : p = q := le_antisymm (hleast q k hq) (hleast' p h hp)
  exact hp.unique hq

/-! ### The depth-first reading -/

/-- The height among several steps is that of the first of them that has one. -/
theorem attestationHeightFromSteps_eq (next : List Step) :
    attestationHeightFromSteps next = next.findSome? attestationHeightFromStep := by
  induction next with
  | nil => rfl
  | cons child rest ih =>
    rw [attestationHeightFromSteps, List.findSome?_cons, ih]
    cases attestationHeightFromStep child <;> rfl

theorem BitcoinPath.inChild {data : StepData} {output : Bytes} {next : List Step} {path : List Nat}
    {height : UInt64} (h : BitcoinPath (.mk data output next) path height)
    (hdata : ∀ k, data ≠ .attestation (.bitcoin k)) :
    ∃ i child rest, path = i :: rest ∧ next[i]? = some child ∧ BitcoinPath child rest height := by
  cases h with
  | attestation => exact absurd rfl (hdata height)
  | next hchild hrest => exact ⟨_, _, _, rfl, hchild, hrest⟩

/-- The depth-first search finds the leftmost Bitcoin attestation, and finds none where there is
none. -/
theorem attestationHeightFromStep_leftmost (step : Step) :
    (∀ h, attestationHeightFromStep step = some h →
        ∃ height, LeftmostBitcoin step height ∧ height.toUInt32 = h) ∧
      (attestationHeightFromStep step = none → ∀ path height, ¬BitcoinPath step path height) := by
  induction step with
  | mk data output next ih =>
    by_cases hdata : ∃ height, data = .attestation (.bitcoin height)
    · obtain ⟨height, rfl⟩ := hdata
      refine ⟨fun h hh => ?_, fun hnone => by cases hnone⟩
      cases hh
      exact ⟨height, ⟨[], .attestation, fun other _ _ => not_lt.mp (List.not_lt_nil other)⟩, rfl⟩
    · have hdata' : ∀ k, data ≠ .attestation (.bitcoin k) := not_exists.mp hdata
      have hstep : attestationHeightFromStep (.mk data output next) =
          next.findSome? attestationHeightFromStep := by
        rw [← attestationHeightFromSteps_eq]
        rcases data with _ | op | attestation
        · rfl
        · rfl
        · cases attestation with
          | bitcoin k => exact absurd rfl (hdata' k)
          | pending uri => rfl
          | unknown tag data => rfl
      rw [hstep]
      constructor
      · intro h hh
        -- the children in front of the one that has a height have no Bitcoin attestation
        obtain ⟨front, child, rest, rfl, hchild, hfront⟩ := List.findSome?_eq_some_iff.mp hh
        obtain ⟨height, ⟨path, hpath, hleast⟩, hheight⟩ := (ih child (by simp)).1 h hchild
        have hget : (front ++ child :: rest)[front.length]? = some child := by simp
        refine ⟨height, ⟨front.length :: path, .next hget hpath, ?_⟩, hheight⟩
        intro other k hother
        obtain ⟨i, sibling, below, rfl, hsibling, hbelow⟩ := hother.inChild hdata'
        rcases Nat.lt_trichotomy i front.length with hlt | rfl | hgt
        · rw [List.getElem?_append_left hlt] at hsibling
          have hmem := List.mem_of_getElem? hsibling
          exact absurd hbelow ((ih sibling (by simp [hmem])).2 (hfront sibling hmem) _ _)
        · rw [hget] at hsibling
          cases hsibling
          exact List.cons_le_cons _ (hleast _ _ hbelow)
        · exact (List.cons_lt_cons_iff.mpr (.inl hgt)).le
      · intro hnone path height hpath
        obtain ⟨i, child, below, rfl, hchild, hbelow⟩ := hpath.inChild hdata'
        have hmem := List.mem_of_getElem? hchild
        exact (ih child hmem).2 (List.findSome?_eq_none_iff.mp hnone child hmem) _ _ hbelow

/-! ### The two readings -/

section

variable [Digests] {source : BlockHeaderSource}

/-- A leaf that is confirmed is a Bitcoin attestation. -/
theorem ConfirmingPath.bitcoinPath {step : Step} {digest : Bytes} {path : List Nat} {h : UInt32}
    (hpath : ConfirmingPath source step digest path h) :
    ∃ height, BitcoinPath step path height ∧ height.toUInt32 = h := by
  induction hpath with
  | attestation => exact ⟨_, .attestation, rfl⟩
  | fork hchild _ ih =>
    obtain ⟨height, hbitcoin, hheight⟩ := ih
    exact ⟨height, .next hchild hbitcoin, hheight⟩
  | op _ hchild _ ih =>
    obtain ⟨height, hbitcoin, hheight⟩ := ih
    rw [List.head?_eq_getElem?] at hchild
    exact ⟨height, .next hchild hbitcoin, hheight⟩

/-- The height that is recorded of a proof is the one that is confirmed exactly when the leftmost
Bitcoin attestation of the proof is of that height, in 32 bits. -/
theorem confirmedHeight_recorded_iff [OtsCodec] {proof : Bytes} {file : DetachedTimestampFile}
    (hread : OtsCodec.fromReader proof = .ok file) (source : BlockHeaderSource) :
    (∀ h, verifyTimestampAttestations file.timestamp source = confirmed h →
        attestationHeightFromProof proof = some h) ↔
      ∀ h height, LeftmostConfirms source file.timestamp.firstStep file.timestamp.startDigest h →
        LeftmostBitcoin file.timestamp.firstStep height → height.toUInt32 = h := by
  have hheight : attestationHeightFromProof proof =
      attestationHeightFromStep file.timestamp.firstStep := by
    rw [attestationHeightFromProof, hread]
  obtain ⟨hsome, hnone⟩ := attestationHeightFromStep_leftmost file.timestamp.firstStep
  simp only [verifyTimestampAttestations_confirmed, hheight]
  constructor
  · intro hagree h height hconfirms hleftmost
    obtain ⟨k, hk, hkh⟩ := hsome h (hagree h hconfirms)
    rw [hleftmost.unique hk, hkh]
  · intro hagree h hconfirms
    obtain ⟨path, hpath, -⟩ := id hconfirms
    obtain ⟨height, hbitcoin, -⟩ := hpath.bitcoinPath
    cases hrecorded : attestationHeightFromStep file.timestamp.firstStep with
    | none => exact absurd hbitcoin (hnone hrecorded path height)
    | some k =>
      obtain ⟨leftmost, hleftmost, rfl⟩ := hsome k hrecorded
      rw [hagree h leftmost hconfirms hleftmost]

end

section

attribute [local instance] Format.sha256Digests Format.sha256Codec

/-- The digest that the examples attest to. -/
def heightDigest : Bytes32 := Bytes32.replicate 7

/-- Attestations of these heights, under a fork when there are several. -/
def attested (heights : List UInt64) : Step :=
  match heights.map fun height => .mk (.attestation (.bitcoin height)) heightDigest.val [] with
  | [only] => only
  | children => .mk .fork heightDigest.val children

def heightProof (heights : List UInt64) : Bytes :=
  Format.writeFile ⟨.sha256, heightDigest.val, attested heights⟩

/-- The digest is the merkle root of the block at this height, and no other block is known. -/
def heightHeaders (height : UInt32) : BlockHeaderSource :=
  ⟨fun h => .ok (if h = height then some heightDigest else none)⟩

theorem fromReader_heightProof (heights : List UInt64) (h : (attested heights).WellShaped)
    (hsame : (attested heights).reexecute heightDigest.val = attested heights) :
    OtsCodec.fromReader (heightProof heights) =
      .ok ⟨.sha256, heightDigest.val, attested heights⟩ := by
  show okOr (Format.readFile _) _ = _
  rw [heightProof, Format.readFile_writeFile heightDigest.property h]
  exact congrArg (fun step => Except.ok (DetachedTimestampFile.mk .sha256 ⟨heightDigest.val, step⟩))
    hsame

/-- The proof of one attestation is recorded at its height. -/
theorem confirmedHeight_recorded_one :
    attestationHeightFromProof (heightProof [800000]) = some 800000 := by
  refine (confirmedHeight_recorded_iff
    (fromReader_heightProof [800000] ⟨trivial, rfl⟩ rfl) (heightHeaders 800000)).mpr ?_ 800000 ?_
  · rintro h height ⟨path, hpath, -⟩ ⟨other, hother, -⟩
    cases hpath
    cases hother with
    | attestation => rfl
    | next hchild _ => cases hchild
  · decide +kernel

/-- A fork whose left attestation is of a height that the source does not know. -/
theorem confirmedHeight_not_recorded :
    ∃ file, OtsCodec.fromReader (heightProof [799999, 800000]) = .ok file ∧
      verifyTimestampAttestations file.timestamp (heightHeaders 800000) = confirmed 800000 ∧
      attestationHeightFromProof (heightProof [799999, 800000]) ≠ some 800000 := by
  refine ⟨_, fromReader_heightProof [799999, 800000] ?_ rfl, by decide +kernel, by decide +kernel⟩
  refine ⟨le_refl 2, ?_, ⟨trivial, rfl⟩, ⟨trivial, rfl⟩, trivial⟩
  intro last hlast
  cases hlast
  exact nofun

end

end Lord.Commit
