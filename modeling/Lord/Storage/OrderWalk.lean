import Lord.Lib.BreadthFirst
import Lord.Ots.Format
import Lord.Storage.Store

/-! The order key against its documented meaning: the forks on the way to the first attestation in
breadth-first order.  The walk stops at an attestation, and at a fork whose children it cannot
number. -/

namespace Lord.Storage

open Ots BreadthFirst

/-! ### What the documentation says -/

/-- The steps that follow: all the children of a fork, and the first successor of any other step. -/
def followed : Step → List Step
  | .mk .fork _ next => next
  | .mk (.op _) _ next => next.take 1
  | .mk (.attestation _) _ next => next.take 1

def IsAttestation : Step → Prop
  | .mk (.attestation _) _ _ => True
  | .mk _ _ _ => False

/-- A fork with more children than a byte has values. -/
def WideFork : Step → Prop
  | .mk .fork _ next => 256 < next.length
  | .mk _ _ _ => False

def isFork : Step → Bool
  | .mk .fork _ _ => true
  | .mk _ _ _ => false

/-- The child indices that are taken at forks on the way to an address. -/
def forkPath (step : Step) : List Nat → List Nat
  | [] => []
  | i :: rest =>
    match (followed step)[i]? with
    | none => []
    | some child => (if isFork step then [i] else []) ++ forkPath child rest

/-- An attestation is reached at the address. -/
abbrev AttestedAt (firstStep : Step) (address : List Nat) : Prop :=
  Stops followed firstStep IsAttestation address

/-- The attestation of least depth, and the leftmost of these. -/
abbrev FirstAttestation (firstStep : Step) (address : List Nat) : Prop :=
  IsFirst followed firstStep IsAttestation address

/-- The key is the path to the first attestation, and it is the sentinel exactly when no attestation
is reached. -/
def ComputesOrderKey (firstStep : Step) : Prop :=
  (∀ address, FirstAttestation firstStep address →
    ∃ key, orderKeyFromTimestamp firstStep = .ok key ∧
      key.map UInt8.toNat = forkPath firstStep address) ∧
  (orderKeyFromTimestamp firstStep = .ok noAttestationSentinel ↔
    ∀ address, ¬AttestedAt firstStep address)

/-! ### The walk -/

theorem forkPath_snoc {root node : Step} {address : List Nat} {i : Nat}
    (hnode : nodeAt followed root address = some node) (hi : i < (followed node).length) :
    forkPath root (address ++ [i]) =
      forkPath root address ++ if isFork node then [i] else [] := by
  induction address generalizing root with
  | nil =>
    cases hnode
    simp [forkPath, List.getElem?_eq_getElem hi]
  | cons j rest ih =>
    rw [nodeAt_cons] at hnode
    obtain ⟨child, hchild, hnode⟩ := Option.bind_eq_some_iff.mp hnode
    rw [List.cons_append, forkPath, forkPath, hchild]
    dsimp only
    rw [ih hnode, List.append_assoc]

/-- What the walk stops at. -/
def Halts (step : Step) : Prop := IsAttestation step ∨ WideFork step

/-- An entry of the queue is the step at an address with the forks on the way to it. -/
def Queued (root : Step) (address : List Nat) (entry : Step × Bytes) : Prop :=
  nodeAt followed root address = some entry.1 ∧ entry.2.map UInt8.toNat = forkPath root address

/-- The ends of a walk: at an attestation, at a fork that is too wide, or with nothing left. -/
inductive WalkEnds (root : Step) : Outcome Bytes → Prop where
  | attestation {address : List Nat} {node : Step} {key : Bytes}
      (hfirst : IsFirst followed root Halts address)
      (hnode : nodeAt followed root address = some node) (hattests : IsAttestation node)
      (hkey : key.map UInt8.toNat = forkPath root address) : WalkEnds root (.ok key)
  | wide {address : List Nat} {node : Step} {message : String}
      (hfirst : IsFirst followed root Halts address)
      (hnode : nodeAt followed root address = some node) (hwide : WideFork node) :
      WalkEnds root (.error (.panic message))
  | nothing (hnone : ∀ address, ¬Stops followed root Halts address) :
      WalkEnds root (.ok noAttestationSentinel)

theorem queued_forkChildren {root : Step} {address : List Nat} {output path : Bytes}
    {next : List Step} (h : Queued root address (.mk .fork output next, path))
    (hnarrow : next.length ≤ 256) :
    List.Forall₂ (Queued root) ((List.range next.length).map fun i => address ++ [i])
      (next.zipIdx.map fun (child, index) => (child, path ++ [UInt8.ofNat index])) := by
  rw [List.forall₂_iff_get]
  refine ⟨by simp, fun i hi hi' => ?_⟩
  have hlt : i < next.length := by simpa using hi
  simp only [List.get_eq_getElem, List.getElem_map, List.getElem_range, List.getElem_zipIdx,
    Nat.zero_add]
  refine ⟨?_, ?_⟩
  · rw [nodeAt_snoc, h.1]
    exact List.getElem?_eq_getElem hlt
  · rw [forkPath_snoc h.1 hlt, List.map_append, h.2]
    simp only [isFork, if_true, List.map_cons, List.map_nil, UInt8.toNat_ofNat']
    rw [Nat.mod_eq_of_lt (by omega)]

theorem walk_ends {root : Step} {addresses : List (List Nat)} {queue : List (Step × Bytes)}
    (hentries : List.Forall₂ (Queued root) addresses queue)
    (h : Frontier followed root Halts addresses) : WalkEnds root (walk queue) := by
  fun_induction walk queue generalizing addresses with
  | case1 =>
    cases hentries
    exact .nothing h.not_stops
  | case2 attestation output next path rest =>
    obtain ⟨address, others, hhead, -, rfl⟩ := List.forall₂_cons_right_iff.mp hentries
    have hstop : Halts (.mk (.attestation attestation) output next) := .inl trivial
    exact .attestation (h.first ⟨_, hhead.1, hstop⟩) hhead.1 trivial hhead.2
  | case3 output next path rest fault hchildren =>
    obtain ⟨address, others, hhead, -, rfl⟩ := List.forall₂_cons_right_iff.mp hentries
    unfold forkChildren at hchildren
    split at hchildren
    · cases hchildren
    · rename_i hwide
      cases hchildren
      have hfork : WideFork (.mk .fork output next) := not_le.mp hwide
      exact .wide (h.first ⟨_, hhead.1, .inr hfork⟩) hhead.1 hfork
  | case4 output next path rest children hchildren ih =>
    obtain ⟨address, others, hhead, hrest, rfl⟩ := List.forall₂_cons_right_iff.mp hentries
    unfold forkChildren at hchildren
    split at hchildren
    · rename_i hnarrow
      cases hchildren
      have hgo : ¬Halts (.mk .fork output next) := by
        rintro (hattests | hwide)
        · exact hattests
        · exact absurd hnarrow (not_le.mpr hwide)
      exact ih (List.rel_append hrest (queued_forkChildren hhead hnarrow)) (h.step hhead.1 hgo)
    · cases hchildren
  | case5 op output path rest ih =>
    obtain ⟨address, others, hhead, hrest, rfl⟩ := List.forall₂_cons_right_iff.mp hentries
    have hstep := h.step hhead.1 (by rintro (hattests | hwide) <;> contradiction)
    exact ih hrest (by simpa [followed] using hstep)
  | case6 op output child others path rest ih =>
    obtain ⟨address, others, hhead, hrest, rfl⟩ := List.forall₂_cons_right_iff.mp hentries
    have hstep := h.step hhead.1 (by rintro (hattests | hwide) <;> contradiction)
    refine ih (List.rel_append hrest (.cons ⟨?_, ?_⟩ .nil)) (by simpa [followed] using hstep)
    · rw [nodeAt_snoc, hhead.1]
      rfl
    · rw [forkPath_snoc hhead.1 (by simp [followed]), ← hhead.2]
      simp [isFork]

theorem orderKeyFromTimestamp_ends (firstStep : Step) :
    WalkEnds firstStep (orderKeyFromTimestamp firstStep) :=
  walk_ends (.cons ⟨rfl, rfl⟩ .nil) Frontier.start

/-! ### The walk and the documentation -/

/-- Every fork that is too wide comes behind an attestation. -/
def WideForksBehind (firstStep : Step) : Prop :=
  ∀ address, Stops followed firstStep WideFork address →
    ∃ other, AttestedAt firstStep other ∧ Before other address

theorem isFirst_of_halts {firstStep node : Step} {address : List Nat} {stop : Step → Prop}
    (hfirst : IsFirst followed firstStep Halts address)
    (hnode : nodeAt followed firstStep address = some node) (hstop : stop node)
    (himp : ∀ step, stop step → Halts step) : IsFirst followed firstStep stop address :=
  ⟨⟨node, hnode, hstop⟩, fun other ⟨found, hfound, hother⟩ =>
    hfirst.2 other ⟨found, hfound, himp found hother⟩⟩

theorem not_attests_of_wide {step : Step} (hwide : WideFork step) : ¬IsAttestation step := by
  rcases step with ⟨_ | op | attestation, output, next⟩ <;> simp_all [WideFork, IsAttestation]

/-- The walk ends with a key exactly when each fork that is too wide comes behind an attestation. -/
theorem wideForksBehind_iff (firstStep : Step) :
    WideForksBehind firstStep ↔ ∃ key, orderKeyFromTimestamp firstStep = .ok key := by
  have hends := orderKeyFromTimestamp_ends firstStep
  generalize orderKeyFromTimestamp firstStep = result at hends
  cases hends with
  | @attestation address node key hfirst hnode hattests hkey =>
    refine ⟨fun _ => ⟨key, rfl⟩, ?_⟩
    rintro - wide ⟨fork, hfork, hwide⟩
    rcases hfirst.2 wide ⟨fork, hfork, .inr hwide⟩ with rfl | hbefore
    · rw [hnode] at hfork
      cases hfork
      exact absurd hattests (not_attests_of_wide hwide)
    · exact ⟨address, ⟨node, hnode, hattests⟩, hbefore⟩
  | @wide address node message hfirst hnode hwide =>
    refine ⟨fun hbehind => ?_, fun ⟨key, hkey⟩ => by cases hkey⟩
    obtain ⟨other, ⟨found, hfound, hattests⟩, hbefore⟩ := hbehind address ⟨node, hnode, hwide⟩
    rcases hfirst.2 other ⟨found, hfound, .inl hattests⟩ with rfl | hafter
    · exact absurd hbefore (Before.irrefl _)
    · exact absurd (hbefore.trans hafter) (Before.irrefl _)
  | nothing hnone =>
    refine ⟨fun _ => ⟨_, rfl⟩, ?_⟩
    rintro - wide ⟨fork, hfork, hwide⟩
    exact absurd ⟨fork, hfork, .inr hwide⟩ (hnone wide)

/-- A key is the path to the first attestation, or the sentinel where there is none. -/
theorem orderKey_first {firstStep : Step} {key : Bytes}
    (h : orderKeyFromTimestamp firstStep = .ok key) :
    (∃ address, FirstAttestation firstStep address ∧
      key.map UInt8.toNat = forkPath firstStep address) ∨
    (∀ address, ¬AttestedAt firstStep address) ∧ key = noAttestationSentinel := by
  have hends := orderKeyFromTimestamp_ends firstStep
  rw [h] at hends
  cases hends with
  | attestation hfirst hnode hattests hkey =>
    exact .inl ⟨_, isFirst_of_halts hfirst hnode hattests fun _ => .inl, hkey⟩
  | nothing hnone =>
    exact .inr ⟨fun address ⟨node, hnode, hattests⟩ =>
      hnone address ⟨node, hnode, .inl hattests⟩, rfl⟩

theorem toNat_sentinel : noAttestationSentinel.map UInt8.toNat = List.replicate 8 255 := by decide

theorem map_toNat_injective : Function.Injective (List.map UInt8.toNat) :=
  List.map_injective_iff.mpr fun _ _ => UInt8.toNat_inj.mp

/-- The key is as documented exactly when each fork of more than 256 children comes behind an
attestation, and the path to the first attestation is not the sentinel. -/
theorem computesOrderKey_iff (firstStep : Step) :
    ComputesOrderKey firstStep ↔
      WideForksBehind firstStep ∧
        ∀ address, FirstAttestation firstStep address →
          forkPath firstStep address ≠ List.replicate 8 255 := by
  rw [wideForksBehind_iff]
  constructor
  · rintro ⟨hpath, hsentinel⟩
    constructor
    · by_cases hattested : ∃ address, AttestedAt firstStep address
      · obtain ⟨first, hfirst⟩ := exists_isFirst hattested.choose_spec
        obtain ⟨key, hkey, -⟩ := hpath first hfirst
        exact ⟨key, hkey⟩
      · exact ⟨_, hsentinel.mpr (not_exists.mp hattested)⟩
    · intro address hfirst heq
      obtain ⟨key, hkey, hmap⟩ := hpath address hfirst
      rw [heq, ← toNat_sentinel] at hmap
      rw [map_toNat_injective hmap] at hkey
      exact hsentinel.mp hkey address hfirst.1
  · rintro ⟨⟨key, hkey⟩, hpath⟩
    rcases orderKey_first hkey with ⟨address, hfirst, hmap⟩ | ⟨hall, rfl⟩
    · refine ⟨fun other hother => ?_, fun hsentinel => ?_, fun hall => ?_⟩
      · rw [hother.unique hfirst]
        exact ⟨key, hkey, hmap⟩
      · rw [hkey] at hsentinel
        cases hsentinel
        exact absurd (hmap.symm.trans toNat_sentinel) (hpath address hfirst)
      · exact absurd hfirst.1 (hall address)
    · exact ⟨fun address hfirst => absurd hfirst.1 (hall address), fun _ => hall, fun _ => hkey⟩

def leafStep : Step :=
  .mk (.attestation (.pending "https://calendar.example")) (List.replicate 32 0) []

/-- A fork of 257 pending attestations. -/
def wideFork : Step := .mk .fork (List.replicate 32 0) (List.replicate 257 leafStep)

theorem orderKeyFromTimestamp_wideFork : orderKeyFromTimestamp wideFork =
    .error (.panic "OTS fork child index must fit in one byte for order key encoding") := by
  have hchildren : forkChildren [] (List.replicate 257 leafStep) =
        .error (.panic "OTS fork child index must fit in one byte for order key encoding") := by
    rw [forkChildren, if_neg (by rw [List.length_replicate]; decide)]
  rw [orderKeyFromTimestamp, wideFork, walk]
  split
  · rename_i fault heq
    rw [hchildren] at heq
    cases heq
    rfl
  · rename_i children heq
    rw [hchildren] at heq
    cases heq

theorem attestedAt_wideFork : AttestedAt wideFork [0] := ⟨_, rfl, trivial⟩

theorem not_computesOrderKey_wideFork : ¬ComputesOrderKey wideFork := by
  rintro ⟨hpath, -⟩
  obtain ⟨first, hfirst⟩ := exists_isFirst attestedAt_wideFork
  obtain ⟨key, hkey, -⟩ := hpath first hfirst
  rw [orderKeyFromTimestamp_wideFork] at hkey
  cases hkey

/-! ### Keys that are stored -/

/-- The proof has a key, and the key is encoded for the order index. -/
def Keyable [OtsCodec] (proof : Bytes) : Prop :=
  ∃ key encoded, orderKeyFromProofBytes proof = .ok key ∧ encodeOrderKeyForLmdb key = .ok encoded

/-- A path that is encoded: it is as long as the sentinel and made of its bytes, or not too long and
without a child of index 255. -/
def PathEncodes (path : List Nat) : Prop :=
  path = List.replicate 8 255 ∨ path.length ≤ maxOtsOrderPathLen ∧ 255 ∉ path

theorem encodes_iff {key : Bytes} {path : List Nat} (h : key.map UInt8.toNat = path) :
    (∃ encoded, encodeOrderKeyForLmdb key = .ok encoded) ↔ PathEncodes path := by
  subst h
  simp only [encodeOrderKeyForLmdb_eq_ok]
  have hsentinel : key.map UInt8.toNat = List.replicate 8 255 ↔ key = noAttestationSentinel := by
    rw [← toNat_sentinel]
    exact map_toNat_injective.eq_iff
  have hbyte : 255 ∉ key.map UInt8.toNat ↔ ∀ byte ∈ key, byte ≠ 255 := by
    rw [List.mem_map]
    constructor
    · intro h byte hmem heq
      exact h ⟨byte, hmem, by rw [heq]; rfl⟩
    · rintro h ⟨byte, hmem, heq⟩
      exact h byte hmem (UInt8.toNat_inj.mp heq)
  rw [PathEncodes, hsentinel, hbyte, List.length_map]
  by_cases heq : key = noAttestationSentinel <;> simp [heq]

theorem encodes_sentinel : ∃ encoded, encodeOrderKeyForLmdb noAttestationSentinel = .ok encoded :=
  ⟨noAttestationSentinel, by rw [encodeOrderKeyForLmdb, if_pos rfl]⟩

/-- A proof that parses is keyed and its key encoded exactly when each fork of more than 256 children
comes behind an attestation, and the path to the first attestation is encoded. -/
theorem keyable_iff [OtsCodec] {proof : Bytes} {file : DetachedTimestampFile}
    (hread : OtsCodec.fromReader proof = .ok file) :
    Keyable proof ↔
      WideForksBehind file.timestamp.firstStep ∧
        ∀ address, FirstAttestation file.timestamp.firstStep address →
          PathEncodes (forkPath file.timestamp.firstStep address) := by
  have hkey : orderKeyFromProofBytes proof = orderKeyFromTimestamp file.timestamp.firstStep := by
    rw [orderKeyFromProofBytes, hread]
    rfl
  rw [Keyable, hkey, wideForksBehind_iff]
  constructor
  · rintro ⟨key, encoded, hok, hencode⟩
    refine ⟨⟨key, hok⟩, fun address hfirst => ?_⟩
    rcases orderKey_first hok with ⟨other, hother, hmap⟩ | ⟨hall, -⟩
    · rw [hfirst.unique hother]
      exact (encodes_iff hmap).mp ⟨encoded, hencode⟩
    · exact absurd hfirst.1 (hall address)
  · rintro ⟨⟨key, hok⟩, hpath⟩
    rcases orderKey_first hok with ⟨address, hfirst, hmap⟩ | ⟨hall, rfl⟩
    · obtain ⟨encoded, hencode⟩ := (encodes_iff hmap).mpr (hpath address hfirst)
      exact ⟨key, encoded, hok, hencode⟩
    · obtain ⟨encoded, hencode⟩ := encodes_sentinel
      exact ⟨_, encoded, hok, hencode⟩

section

attribute [local instance] Format.sha256Digests Format.sha256Codec

/-- The file of a tree over a digest of zeros. -/
def fileOf (firstStep : Step) : DetachedTimestampFile :=
  ⟨.sha256, List.replicate 32 0, firstStep⟩

theorem fromReader_fileOf {firstStep : Step} (h : firstStep.WellShaped) :
    OtsCodec.fromReader (Format.writeFile (fileOf firstStep)) =
      .ok (fileOf (firstStep.reexecute (List.replicate 32 0))) := by
  show okOr (Format.readFile _) _ = _
  rw [Format.readFile_writeFile List.length_replicate h]
  rfl

theorem stops_leafStep {stop : Step → Prop} {address : List Nat}
    (h : Stops followed leafStep stop address) : address = [] := by
  obtain ⟨node, hnode, -⟩ := h
  cases address with
  | nil => rfl
  | cons i rest =>
    rw [nodeAt_cons] at hnode
    cases hnode

theorem leafStep_wellShaped : leafStep.WellShaped := by
  refine ⟨?_, rfl⟩
  show validUri "https://calendar.example" = true
  decide +kernel

theorem keyable_pending : Keyable (Format.writeFile (fileOf leafStep)) := by
  refine (keyable_iff (fromReader_fileOf leafStep_wellShaped)).mpr ⟨?_, ?_⟩
  · rintro address ⟨node, hnode, hwide⟩
    obtain rfl := stops_leafStep ⟨node, hnode, hwide⟩
    cases hnode
    exact absurd hwide id
  · intro address hfirst
    obtain rfl := stops_leafStep hfirst.1
    exact .inr ⟨by decide, by simp [forkPath]⟩

theorem wideFork_wellShaped : wideFork.WellShaped := by
  refine ⟨by rw [List.length_replicate]; decide, ?_, ?_⟩
  · intro last hlast
    rw [List.getLast?_replicate, if_neg (by decide)] at hlast
    cases hlast
    exact nofun
  · rw [Step.wellShapedList_iff]
    intro child hchild
    rw [List.eq_of_mem_replicate hchild]
    exact leafStep_wellShaped

theorem reexecute_wideFork : wideFork.reexecute (List.replicate 32 0) = wideFork := by
  have hchildren : ∀ n, Step.reexecuteList (List.replicate n leafStep) (List.replicate 32 0) =
      List.replicate n leafStep := by
    intro n
    induction n with
    | zero => rfl
    | succ n ih =>
      rw [List.replicate_succ, Step.reexecuteList, ih]
      rfl
  rw [wideFork, Step.reexecute]
  exact congrArg _ (hchildren 257)

/-- The walk panics on a file that the parser reads. -/
theorem not_keyable_wideFork : ¬Keyable (Format.writeFile (fileOf wideFork)) := by
  rintro ⟨key, encoded, hkey, -⟩
  rw [orderKeyFromProofBytes, fromReader_fileOf wideFork_wellShaped, reexecute_wideFork] at hkey
  change orderKeyFromTimestamp wideFork = .ok key at hkey
  rw [orderKeyFromTimestamp_wideFork] at hkey
  cases hkey

end

end Lord.Storage
