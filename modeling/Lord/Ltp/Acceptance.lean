import Lord.Ltp.Gossip
import Lord.Ltp.TornAppends

/-! Which messages the handler accepts, and what the append of their records does to the staging files of
each kind. -/

namespace Lord.Ltp

open Ots Runs

section

variable [Digests] [LtpJson]

/-! ### The handler -/

/-- What a message has to meet to be staged. -/
structure Accepted (chain : LtpChain) (env : InboundEnv) (content : Bytes) (frame : LtpFrame)
    (publication : Publication) (receivedAt : UInt64) : Prop where
  decoded : LtpJson.decodeFrame content = .ok frame
  version : frame.version = ltpFrameVersion
  chainId : frame.chainId = chain.chainId
  now : env.now = .ok receivedAt
  messageType : frame.messageType = publication.messageType
  read : publication.ReadFrom frame.payload
  binds : publication.Binds
  contract : publication.AboutContract → env.storageContractExists publication.baoRoot = .ok true

theorem checkInboundFrame_eq_ok {env : InboundEnv} {frame : LtpFrame} {receivedAt : UInt64}
    {added : InboundRecord} :
    checkInboundFrame env frame receivedAt = .ok added ↔
      ∃ publication : Publication, frame.messageType = publication.messageType ∧
        publication.ReadFrom frame.payload ∧ publication.Binds ∧
        (publication.AboutContract → env.storageContractExists publication.baoRoot = .ok true) ∧
        added = publication.record receivedAt frame := by
  unfold checkInboundFrame
  constructor
  · intro h
    split at h
    · rename_i htype
      obtain ⟨tail, hread, h⟩ := bind_eq_ok.mp h
      obtain ⟨⟨⟩, hbinds, h⟩ := bind_eq_ok.mp h
      cases h
      exact ⟨.tail tail, htype, Result.context_eq_ok.mp hread, validateBrecciaTailPayload_ok.mp hbinds,
        False.elim, rfl⟩
    · rename_i htype
      obtain ⟨proof, hread, h⟩ := bind_eq_ok.mp h
      obtain ⟨⟨⟩, hbinds, h⟩ := bind_eq_ok.mp h
      obtain ⟨⟨⟩, hcontract, h⟩ := bind_eq_ok.mp h
      cases h
      exact ⟨.proof proof, htype, Result.context_eq_ok.mp hread,
        validatePaymentProofPayload_ok.mp hbinds, fun _ => ensureStorageContractForRoot_ok.mp hcontract,
        rfl⟩
    · rename_i htype
      obtain ⟨challenge, hread, h⟩ := bind_eq_ok.mp h
      obtain ⟨⟨⟩, hbinds, h⟩ := bind_eq_ok.mp h
      obtain ⟨⟨⟩, hcontract, h⟩ := bind_eq_ok.mp h
      cases h
      exact ⟨.challenge challenge, htype, Result.context_eq_ok.mp hread,
        validateBaoChallengePayload_ok.mp hbinds, fun _ => ensureStorageContractForRoot_ok.mp hcontract,
        rfl⟩
    · cases h
    · cases h
  · rintro ⟨publication, htype, hread, hbinds, hcontract, rfl⟩
    rw [htype]
    cases publication with
    | tail tail =>
      exact bind_eq_ok.mpr ⟨tail, Result.context_eq_ok.mpr hread,
        bind_eq_ok.mpr ⟨(), validateBrecciaTailPayload_ok.mpr hbinds, rfl⟩⟩
    | proof proof =>
      exact bind_eq_ok.mpr ⟨proof, Result.context_eq_ok.mpr hread,
        bind_eq_ok.mpr ⟨(), validatePaymentProofPayload_ok.mpr hbinds,
          bind_eq_ok.mpr ⟨(), ensureStorageContractForRoot_ok.mpr (hcontract trivial), rfl⟩⟩⟩
    | challenge challenge =>
      exact bind_eq_ok.mpr ⟨challenge, Result.context_eq_ok.mpr hread,
        bind_eq_ok.mpr ⟨(), validateBaoChallengePayload_ok.mpr hbinds,
          bind_eq_ok.mpr ⟨(), ensureStorageContractForRoot_ok.mpr (hcontract trivial), rfl⟩⟩⟩

/-- The checks let exactly the messages through that are accepted. -/
theorem checkInboundMessage_eq_ok {chain : LtpChain} {env : InboundEnv} {content : Bytes}
    {added : InboundRecord} :
    checkInboundMessage chain env content = .ok added ↔
      ∃ frame publication receivedAt, Accepted chain env content frame publication receivedAt ∧
        added = publication.record receivedAt frame := by
  unfold checkInboundMessage
  constructor
  · intro h
    obtain ⟨frame, hdecode, h⟩ := bind_eq_ok.mp h
    obtain ⟨⟨⟩, hversion, h⟩ := bind_eq_ok.mp h
    split at h
    · cases h
    rename_i hchain
    obtain ⟨receivedAt, hnow, h⟩ := bind_eq_ok.mp h
    obtain ⟨publication, htype, hread, hbinds, hcontract, hadded⟩ := checkInboundFrame_eq_ok.mp h
    have hframe : frame.version = ltpFrameVersion := by
      unfold validateLtpFrameVersion at hversion
      split at hversion
      · cases hversion
      · rename_i hsame
        exact not_not.mp hsame
    exact ⟨frame, publication, receivedAt, ⟨Result.context_eq_ok.mp hdecode, hframe, not_not.mp hchain,
      Result.context_eq_ok.mp hnow, htype, hread, hbinds, hcontract⟩, hadded⟩
  · rintro ⟨frame, publication, receivedAt, h, hadded⟩
    have hversion : validateLtpFrameVersion frame = .ok () := by
      rw [validateLtpFrameVersion, if_neg (not_not.mpr h.version)]
    refine bind_eq_ok.mpr ⟨frame, Result.context_eq_ok.mpr h.decoded, bind_eq_ok.mpr
      ⟨(), hversion, ?_⟩⟩
    rw [if_neg (not_not.mpr h.chainId)]
    exact bind_eq_ok.mpr ⟨receivedAt, Result.context_eq_ok.mpr h.now, checkInboundFrame_eq_ok.mpr
      ⟨publication, h.messageType, h.read, h.binds, h.contract, hadded⟩⟩

omit [LtpJson] in
/-- The payload of an accepted message passes the check of its append as well. -/
theorem Publication.Binds.validate {publication : Publication} (h : publication.Binds)
    (receivedAt : UInt64) (frame : LtpFrame) :
    let added := publication.record receivedAt frame
    (added.kind.staging.validate added.record).isOk = true := by
  cases publication with
  | tail tail => rfl
  | proof proof =>
    have hvalid := validatePaymentProofPayload_ok.mpr h
    dsimp only [record, InboundKind.staging, inboundPaymentProofs]
    rw [hvalid]
    rfl
  | challenge challenge =>
    have hvalid := validateBaoChallengePayload_ok.mpr h
    dsimp only [record, InboundKind.staging, inboundBaoChallenges]
    rw [hvalid]
    rfl

end

/-! ### Appends of one kind -/

/-- Every step of an append works. -/
def AppendEnv.Works (env : AppendEnv) : Prop :=
  env.createDir.isOk ∧ env.openFile.isOk ∧ env.lock.isOk ∧ env.write = none

/-- The append of a record, when the record is of this kind. -/
def InboundKind.callOf (kind : InboundKind) (call : InboundRecord × AppendEnv) :
    Option (kind.Record × AppendEnv) :=
  if h : call.1.kind = kind then some (h ▸ call.1.record, call.2) else none

theorem InboundKind.callOf_eq_some {kind : InboundKind} {call : InboundRecord × AppendEnv}
    {own : kind.Record × AppendEnv} :
    kind.callOf call = some own ↔ call = (⟨kind, own.1⟩, own.2) := by
  obtain ⟨⟨other, record⟩, env⟩ := call
  unfold callOf
  by_cases hkind : other = kind
  · subst hkind
    obtain ⟨record', env'⟩ := own
    simp
  · simp [hkind]

/-- An append leaves the files of the other kinds as they were. -/
theorem appendInbound_file (chainDataDir other : String) (call : InboundRecord × AppendEnv)
    (files : InboundFiles) (kind : InboundKind) :
    (appendInbound chainDataDir call.2 call.1 files).2 kind =
      run (fun file call => (kind.staging.append other call.2 call.1 file).2) (files kind)
        (kind.callOf call).toList := by
  obtain ⟨⟨added, record⟩, env⟩ := call
  unfold appendInbound InboundKind.callOf
  by_cases hkind : added = kind
  · subst hkind
    simp only [Function.update_self, dif_pos, Option.toList_some, run, List.foldl_cons, List.foldl_nil]
    exact Staging.append_file_eq ..
  · simp only [Function.update_of_ne (Ne.symm hkind), dif_neg hkind, Option.toList_none, run,
      List.foldl_nil]

end Lord.Ltp
