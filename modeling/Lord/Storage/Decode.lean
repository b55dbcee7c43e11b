import Lord.Storage.Encode

/-! Decoding the content of a public commitment. -/

namespace Lord.Storage

/-- Errors from public commitment content decode. -/
inductive DecodeError where
  | oversized (maxBytes : Nat)
  | encodedFileTooLarge (size maxBytes : Nat)
  | carbonadoNotFound (path : String)
  | invalidPath (message : String)
  | privateFormat
  | invalidHeader
  | headerAuthFailed
  | headerBindingMismatch
  | formatMismatch (stored header : UInt8)
  | corruptPayload
  | internal (err : Error)
  deriving Repr, DecidableEq

def DecodeError.text : DecodeError → String
  | oversized maxBytes => s!"decoded payload exceeds maximum size of {maxBytes} bytes"
  | encodedFileTooLarge size maxBytes =>
    s!"carbonado file size {size} exceeds maximum encoded size of {maxBytes} bytes"
  | carbonadoNotFound path => s!"carbonado file `{path}` not found"
  | invalidPath message => message
  | privateFormat => "private commitment content requires master key (not available on /content)"
  | invalidHeader => "invalid carbonado header"
  | headerAuthFailed => "carbonado header authentication failed"
  | headerBindingMismatch => "carbonado header hash does not match requested bao root"
  | formatMismatch stored header =>
    s!"carbonado header format c{header} does not match stored metadata format c{stored}"
  | corruptPayload => "carbonado decode failed"
  | internal err => toString err

/-- Arithmetic on `u64` that stops at the last number. -/
def saturate (n : Nat) : Nat := min n (2 ^ 64 - 1)

/-- `read_bao_content_len`: the first eight bytes of a body. -/
def readBaoContentLen (body : Bytes) : Result Nat :=
  if body.length < 8 then .error "bao body too short"
  else .ok (LittleEndian.decode (body.take 8))

def readCarbonadoFile (dir : DataDir) (relativePath : String) (maxEncodedBytes : Nat) :
    Except DecodeError Bytes :=
  match dir.carbonado relativePath with
  | none => .error (.carbonadoNotFound s!"{dir.carbonadoDir}/{relativePath}")
  | some encoded =>
    if maxEncodedBytes < encoded.length then
      .error (.encodedFileTooLarge encoded.length maxEncodedBytes)
    else
      .ok encoded

def mapHeaderAuthError (err : Error) : DecodeError :=
  if "header authentication failed".toList <:+: err.message.toList then .headerAuthFailed
  else .internal err

section

variable [Carbonado]

/-- Maximum on-disk carbonado blob size allowed for decode at a given decoded cap. -/
def maxEncodedBytesForDecode (maxDecodedBytes : Nat) : Nat :=
  saturate (saturate (Carbonado.headerLen + saturate (maxDecodedBytes * 2)) + 1024 * 1024)

def decodePublicCommitmentContentWithEncodedCap (dir : DataDir) (row : CommitmentMeta)
    (baoRoot : Bytes32) (maxDecodedBytes maxEncodedBytes : Nat) : Except DecodeError Bytes :=
  match validateCarbonadoRelativePath row.carbonadoPath with
  | .error err => .error (.invalidPath (toString err))
  | .ok () =>
    if row.format % 2 ≠ 0 then
      .error .privateFormat
    else do
      let encoded ← readCarbonadoFile dir row.carbonadoPath maxEncodedBytes
      match Carbonado.header encoded with
      | .error _ => .error .invalidHeader
      | .ok header =>
        if header.hash ≠ baoRoot then
          .error .headerBindingMismatch
        else if header.format ≠ row.format then
          .error (.formatMismatch row.format header.format)
        else
          match authenticateHeader publicMasterKey header with
          | .error err => .error (mapHeaderAuthError err)
          | .ok () =>
            match readBaoContentLen (encoded.drop Carbonado.headerLen) with
            | .error _ => .error .corruptPayload
            | .ok contentLen =>
              if maxDecodedBytes < contentLen then
                .error (.oversized maxDecodedBytes)
              else
                match Carbonado.decode publicMasterKey encoded with
                | .error _ => .error .corruptPayload
                | .ok (decodedHeader, decoded) =>
                  if decodedHeader.hash ≠ baoRoot then
                    .error .headerBindingMismatch
                  else if maxDecodedBytes < decoded.length then
                    .error (.oversized maxDecodedBytes)
                  else
                    .ok decoded

/-- Decode the inner plaintext payload of a public Carbonado commitment. -/
def decodePublicCommitmentContent (dir : DataDir) (row : CommitmentMeta) (baoRoot : Bytes32)
    (maxDecodedBytes : Nat) : Except DecodeError Bytes :=
  decodePublicCommitmentContentWithEncodedCap dir row baoRoot maxDecodedBytes
    (maxEncodedBytesForDecode maxDecodedBytes)

end

end Lord.Storage
