import Lord.Calendar.ConfirmedProof
import Lord.Calendar.Service

/-! The shape of the calendar's proofs: whatever it answers to a digest is a chain of operations to one
attestation.  A chain has no fork, so its order key is empty. -/

namespace Lord.Calendar

open Ots Ots.Step Bitcoin Storage

section

variable [Digests]

/-! ### What is built is a chain -/

omit [Digests] in
theorem isChain_of_head {entries : List (Op × Bytes)} {step : Step}
    (h : (chain entries []).head? = some step) : IsChain entries step := by
  cases entries with
  | nil => cases h
  | cons entry rest =>
    cases h
    rfl

theorem txCommitmentToTxidStep_isChain {commitment : Bytes} {tx : Transaction} {step : Step}
    (h : txCommitmentToTxidStep commitment tx = .ok step) :
    IsChain (outputs (commitmentOps commitment tx) commitment) step := by
  obtain ⟨pos, hpos, h⟩ := bind_eq_ok.mp h
  rw [okOr_eq_ok] at hpos
  have hops : (if executeAll (commitmentOps commitment tx) commitment ≠ tx.computeTxid.val then
      (.error "anchor tx inclusion proof does not reach txid" : Result Step)
    else okOr (chain (outputs (commitmentOps commitment tx) commitment) []).head? "no operation") =
      .ok step := by
    simp only [commitmentOps, hpos, Option.getD_some]
    exact h
  split at hops
  · cases hops
  · apply isChain_of_head
    exact okOr_eq_ok.mp hops

theorem merklePathSteps_isChain {digest : Bytes} {leaves : List Bytes} {index : Nat} {step : Step}
    (h : merklePathSteps digest leaves index = .ok step) :
    IsChain (nestEntries (merklePathLoop leaves index).reverse digest) step := by
  obtain ⟨path, hpath, h⟩ := bind_eq_ok.mp h
  rw [okOr_eq_ok, merklePath] at hpath
  split at hpath
  · cases hpath
  · cases hpath
    apply isChain_of_head
    rw [← nestPath_eq]
    exact okOr_eq_ok.mp h

theorem stepsToTxid_isChain {digest commitment : Bytes} {leaves : List Bytes} {index : Nat}
    {entries : List (Op × Bytes)} {txidStep step : Step} (hchain : IsChain entries txidStep)
    (h : stepsToTxid digest commitment leaves index txidStep = .ok step) :
    IsChain (batchEntries digest commitment leaves index ++ entries) step := by
  rw [stepsToTxid] at h
  rw [batchEntries]
  split at h
  · rename_i heq
    cases h
    rwa [if_pos heq]
  · rename_i hne
    obtain ⟨merkle, hmerkle, h⟩ := bind_eq_ok.mp h
    split at h
    · cases h
    · cases h
      rw [if_neg hne]
      exact (merklePathSteps_isChain hmerkle).linkSteps hchain

theorem blockMerklePathSteps_isChain {tx : Transaction} {block : Block} {step : Step}
    (h : blockMerklePathSteps tx.computeTxid.val block = .ok step) :
    IsChain (inclusionEntries (blockPath tx block) tx.computeTxid.val) step := by
  obtain ⟨index, hindex, h⟩ := bind_eq_ok.mp h
  rw [okOr_eq_ok, List.findIdx?_eq_some_iff_findIdx_eq] at hindex
  obtain ⟨-, rfl⟩ := hindex
  obtain ⟨path, hpath, h⟩ := bind_eq_ok.mp h
  rw [okOr_eq_ok, bitcoinTxMerklePath] at hpath
  split at hpath
  · cases hpath
  cases hpath
  split at h
  · cases h
  rw [inclusionPathSteps] at h
  split at h
  · cases h
  · apply isChain_of_head
    rw [← nestInclusion_eq]
    exact okOr_eq_ok.mp h

variable [OtsCodec]

/-- A confirmed proof is written from a chain of its operations. -/
theorem bitcoinConfirmedProofBytes_chain {digest commitment : Bytes} {leaves : List Bytes}
    {index : Nat} {tx : Transaction} {block : Block} {height : UInt32} {proof : Bytes}
    (h : bitcoinConfirmedProofBytes digest commitment leaves index tx block height = .ok proof) :
    ∃ entries output, entries.map Prod.fst = proofOps digest commitment leaves index tx block ∧
      serializeProof ⟨.sha256, digest,
        chainHead entries (.mk (.attestation (.bitcoin height.toUInt64)) output [])⟩ = .ok proof := by
  obtain ⟨txidStep, htxid, h⟩ := bind_eq_ok.mp h
  obtain ⟨firstStep, hfirst, h⟩ := bind_eq_ok.mp h
  obtain ⟨blockStep, hblock, h⟩ := bind_eq_ok.mp h
  have hfront := stepsToTxid_isChain (txCommitmentToTxidStep_isChain htxid) hfirst
  have hchain := hfront.linkSteps (blockMerklePathSteps_isChain hblock)
  refine ⟨_, block.header.merkleRoot.val, proofEntries_ops digest commitment leaves index tx block, ?_⟩
  rw [← hchain.linkSteps_eq]
  exact h

end

/-! ### The order key of a chain -/

section

variable [Digests]

/-- A chain stays one when its outputs are computed. -/
theorem reexecute_chainHead (entries : List (Op × Bytes)) (attestation : Attestation)
    (output digest : Bytes) : ∃ entries' output',
      (chainHead entries (.mk (.attestation attestation) output [])).reexecute digest =
        chainHead entries' (.mk (.attestation attestation) output' []) := by
  induction entries generalizing digest with
  | nil => exact ⟨[], digest, by simp [chainHead, reexecute, reexecuteList]⟩
  | cons entry rest ih =>
    obtain ⟨op, claimed⟩ := entry
    obtain ⟨entries', output', heq⟩ := ih (op.execute digest)
    exact ⟨(op, op.execute digest) :: entries', output', by
      simp [chainHead, reexecute, reexecuteList, heq]⟩

omit [Digests] in
/-- The walk goes along a chain to its end and meets no fork. -/
theorem orderKeyFromTimestamp_chainHead (entries : List (Op × Bytes)) (attestation : Attestation)
    (output : Bytes) :
    orderKeyFromTimestamp (chainHead entries (.mk (.attestation attestation) output [])) = .ok [] := by
  rw [orderKeyFromTimestamp]
  induction entries with
  | nil => rw [chainHead, walk]
  | cons entry rest ih =>
    obtain ⟨op, claimed⟩ := entry
    rw [chainHead, walk]
    exact ih

variable [OtsCodec] [LawfulOtsCodec]

/-- What is written of a chain has the empty order key. -/
theorem orderKeyFromProofBytes_chain {digest : Bytes32} {entries : List (Op × Bytes)}
    {attestation : Attestation} {output proof : Bytes} (hreadable : Readable (entries.map Prod.fst))
    (hattestation : attestation.WellFormed)
    (h : serializeProof ⟨.sha256, digest.val,
      chainHead entries (.mk (.attestation attestation) output [])⟩ = .ok proof) :
    orderKeyFromProofBytes proof = .ok [] := by
  obtain ⟨bytes, hwrite, hread⟩ := exists_serializeProof digest attestation output hreadable
    hattestation
  rw [hwrite] at h
  cases h
  obtain ⟨entries', output', hchain⟩ := reexecute_chainHead entries attestation output digest.val
  rw [orderKeyFromProofBytes, hread, hchain]
  exact orderKeyFromTimestamp_chainHead entries' attestation output'

/-! ### The answers of the calendar -/

/-- The calendar stamps a URI that the parser reads, and each of its stored proofs was built from an anchor
and is one that the parser reads. -/
structure Readies (inner : CalendarInner) : Prop where
  uri : validUri inner.uri = true
  stored : ∀ digest proof, inner.state.store.getProof digest = some proof →
    ∃ commitment leaves index tx block height,
      bitcoinConfirmedProofBytes digest.val commitment leaves index tx block height = .ok proof ∧
        Readable (proofOps digest.val commitment leaves index tx block)

/-- The calendar answers a digest with a proof of the empty order key, pending or confirmed. -/
theorem submitDigest_orderKey {inner : CalendarInner} (h : Readies inner) (digest : Bytes32) :
    ∃ proof, (submitDigest inner (.ok ()) digest.val).1 = .ok proof ∧
      orderKeyFromProofBytes proof = .ok [] := by
  have harray : toArray32 digest.val = some digest := dif_pos digest.property
  unfold submitDigest
  rw [harray]
  dsimp only
  cases hstored : inner.state.store.getProof digest with
  | some proof =>
    obtain ⟨commitment, leaves, index, tx, block, height, hproof, hreadable⟩ :=
      h.stored digest proof hstored
    obtain ⟨entries, output, hops, hwrite⟩ := bitcoinConfirmedProofBytes_chain hproof
    rw [← hops] at hreadable
    have hattestation : (Attestation.bitcoin height.toUInt64).WellFormed := trivial
    exact ⟨proof, rfl, orderKeyFromProofBytes_chain hreadable hattestation hwrite⟩
  | none =>
    have hnone : Readable (([] : List (Op × Bytes)).map Prod.fst) := ⟨by simp, by decide⟩
    have hattestation : (Attestation.pending inner.uri).WellFormed := h.uri
    obtain ⟨proof, hwrite, -⟩ := exists_serializeProof digest _ digest.val hnone hattestation
    exact ⟨proof, hwrite, orderKeyFromProofBytes_chain hnone hattestation hwrite⟩

end

end Lord.Calendar
