import Lord.Lib.Bytes

/-! Commitment metadata as stored in LMDB. -/

namespace Lord.Storage

inductive Visibility where
  | pub
  | priv
  deriving Repr, DecidableEq

/-- Even formats are public. -/
def Visibility.fromFormat (format : UInt8) : Visibility :=
  if format % 2 = 0 then .pub else .priv

/-- Carbonado on-disk layout mode. -/
inductive Layout where
  | inboard
  | outboard
  deriving Repr, DecidableEq

/-- Commitment metadata (no blob bytes). -/
structure CommitmentMeta where
  baoRoot : Bytes32
  carbonadoPath : String
  format : UInt8
  visibility : Visibility
  layout : Layout
  filepackFp : Option String
  createdAt : UInt64
  otsProofPath : Option String
  otsOrderKey : Option Bytes
  timestampedAt : Option UInt64
  deriving Repr, DecidableEq

namespace CommitmentMeta

def new (baoRoot : Bytes32) (carbonadoPath : String) (format : UInt8) (layout : Layout)
    (createdAt : UInt64) : CommitmentMeta where
  baoRoot
  carbonadoPath
  format
  visibility := Visibility.fromFormat format
  layout
  filepackFp := none
  createdAt
  otsProofPath := none
  otsOrderKey := none
  timestampedAt := none

/-- True when an OTS proof and order key are both recorded. -/
def isTimestamped (row : CommitmentMeta) : Bool :=
  row.otsProofPath.isSome && row.otsOrderKey.isSome

/-- The recorded OTS state: proof path, order key and time. -/
def otsState (row : CommitmentMeta) : Option String × Option Bytes × Option UInt64 :=
  (row.otsProofPath, row.otsOrderKey, row.timestampedAt)

end CommitmentMeta

end Lord.Storage
