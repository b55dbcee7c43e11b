import Lord.Lib.Json
import Lord.Lib.Lines
import Lord.Lib.Runs
import Lord.Ltp.Inbound

/-! The staging files of inbound messages, as bytes: an append writes a line of JSON behind whatever is there,
and may stop on the way; a reader takes the lines one by one. -/

namespace Lord.Ltp

open Runs

/-! ### The JSON of the records -/

def byteArray (bytes : Bytes) : Json := .array (bytes.map fun byte => .number byte.toNat)

def optional {α : Type} (json : α → Json) : Option α → Json
  | none => .null
  | some a => json a

def LtpMessageType.json : LtpMessageType → Json
  | .brecciaTail => .string "breccia_tail"
  | .otsUpgradeHint => .string "ots_upgrade_hint"
  | .replicationOffer => .string "replication_offer"
  | .baoChallenge => .string "bao_challenge"
  | .paymentProof => .string "payment_proof"

def LtpFrame.json (frame : LtpFrame) : Json :=
  .object [("version", .number frame.version.toNat), ("chain_id", .number frame.chainId.toNat),
    ("message_type", frame.messageType.json), ("payload", byteArray frame.payload)]

def TreeRoot.json (root : TreeRoot) : Json :=
  .object [("merkle_root", byteArray root.merkleRoot.val), ("anchor_txid", .string root.anchorTxid)]

def BrecciaTailPayload.json (tail : BrecciaTailPayload) : Json :=
  .object [("bao_root", byteArray tail.baoRoot.val), ("start_digest", byteArray tail.startDigest.val),
    ("ots_order_key", byteArray tail.otsOrderKey),
    ("attestation_height", optional (fun height => .number height.toNat) tail.attestationHeight),
    ("attestation_txid", optional .string tail.attestationTxid),
    ("tree_root", optional TreeRoot.json tail.treeRoot)]

def PaymentProofPayload.json (proof : PaymentProofPayload) : Json :=
  .object [("bao_root", byteArray proof.baoRoot.val), ("purpose", .string proof.purpose),
    ("ecash_reference", .string proof.ecashReference), ("amount_sats", .number proof.amountSats.toNat)]

def BaoChallengePayload.json (challenge : BaoChallengePayload) : Json :=
  .object [("bao_root", byteArray challenge.baoRoot.val),
    ("sample_offset", .number challenge.sampleOffset.toNat),
    ("sample_rate", .number challenge.sampleRate.toNat)]

/-! ### The files -/

/-- A kind of staged records: its file, its name in messages, what is checked before an append, and the
fields of its JSON. -/
structure Staging (Record : Type) where
  file : String
  label : String
  validate : Record → Result Unit
  receivedAt : Record → UInt64
  fields : Record → List (String × Json)

def inboundTails : Staging InboundTailRecord where
  file := "inbound_tails.jsonl"
  label := "inbound tail"
  validate _ := .ok ()
  receivedAt := InboundTailRecord.receivedAt
  fields record := [("frame", record.frame.json), ("tail", record.tail.json)]

def inboundPaymentProofs : Staging InboundPaymentProofRecord where
  file := "inbound_payment_proofs.jsonl"
  label := "inbound payment proof"
  validate record := validatePaymentProofPayload record.proof
  receivedAt := InboundPaymentProofRecord.receivedAt
  fields record := [("frame", record.frame.json), ("proof", record.proof.json)]

def inboundBaoChallenges : Staging InboundBaoChallengeRecord where
  file := "inbound_bao_challenges.jsonl"
  label := "inbound bao challenge"
  validate record := validateBaoChallengePayload record.challenge
  receivedAt := InboundBaoChallengeRecord.receivedAt
  fields record := [("frame", record.frame.json), ("challenge", record.challenge.json)]

/-- How the steps of an append go; a write may fail when a part of the line is in the file. -/
structure AppendEnv where
  createDir : Result Unit
  openFile : Result Unit
  lock : Result Unit
  write : Option WriteFault

namespace Staging

variable {Record : Type} (kind : Staging Record)

def path (chainDataDir : String) : String := s!"{chainDataDir}/ltp/{kind.file}"

/-- `serde_json::to_string`. -/
def text (record : Record) : String := String.ofList
  (Json.object (("received_at", .number (kind.receivedAt record).toNat) :: kind.fields record)).write

def line (record : Record) : Bytes := Utf8.encode (kind.text record)

def append (chainDataDir : String) (env : AppendEnv) (record : Record) (file : Option Bytes) :
    Result Unit × Option Bytes :=
  match kind.validate record with
  | .error err => (.error err, file)
  | .ok () =>
    match env.createDir.context s!"failed to create `{chainDataDir}/ltp`" with
    | .error err => (.error err, file)
    | .ok () =>
      match env.openFile.context s!"failed to open `{kind.path chainDataDir}`" with
      | .error err => (.error err, file)
      | .ok () =>
        let opened := file.getD []
        match env.lock.context s!"failed to lock `{kind.path chainDataDir}` for append" with
        | .error err => (.error err, some opened)
        | .ok () =>
          match env.write with
          | none => (.ok (), some (opened ++ (kind.line record ++ [0x0a])))
          -- The newline is the last byte of a write, so a torn one has none.
          | some fault =>
            (Result.context (.error fault.error) s!"failed to append `{kind.path chainDataDir}`",
              some (opened ++ (kind.line record).take fault.written))

variable (fromStr : String → Result Record)

/-- A line of the file, of this index. -/
def readLine (chainDataDir : String) (piece : Bytes) (index : Nat) : Result (Option Record) :=
  match Utf8.decode piece with
  | none => .error ⟨s!"failed to read line {index + 1} of `{kind.path chainDataDir}`",
      ["stream did not contain valid UTF-8"]⟩
  | some text =>
    let line := Lines.strip text.toList
    if line.all Lines.isWhitespace then .ok none
    else (Result.context (fromStr (String.ofList line))
      s!"failed to parse {kind.label} line {index + 1}").map some

def read (chainDataDir : String) (file : Option Bytes) : Result (List Record) :=
  match file with
  | none => .ok []
  | some bytes => do
    let records ← (Lines.splitInclusive 0x0a bytes).zipIdx.mapM fun piece =>
      kind.readLine fromStr chainDataDir piece.1 piece.2
    .ok records.reduceOption

end Staging

end Lord.Ltp
