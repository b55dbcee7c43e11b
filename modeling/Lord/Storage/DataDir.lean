import Lord.Storage.Store
import Lord.Storage.Carbonado

/-! The data directory of a node: the LMDB store, the files beside it and the master key. -/

namespace Lord.Storage

/-- The master key file with its permission bits. -/
structure MasterKeyFile where
  mode : Nat
  bytes : Bytes

/-- The state of a data directory.  Each directory of it is a map from file names to contents, and
`ots` is keyed by the path below the data directory. -/
structure DataDir where
  /-- The directory as it is shown in messages. -/
  path : String
  store : StorageStore
  masterKey : Option MasterKeyFile
  carbonado : String → Option Bytes
  ots : String → Option Bytes
  /-- Pending proofs, by the path of the proof that they are pending for. -/
  pendingOts : String → Option Bytes
  breccia : Option Bytes

/-- The message of `std::io::Error` for a file that does not exist. -/
def noSuchFile : String := "No such file or directory (os error 2)"

/-- A map of files after one of them is written. -/
def writeFile (files : String → Option Bytes) (name : String) (data : Bytes) :
    String → Option Bytes :=
  Function.update files name (some data)

/-- A map of files after one of them is removed. -/
def removeFile (files : String → Option Bytes) (name : String) : String → Option Bytes :=
  Function.update files name none

@[simp] theorem writeFile_same (files : String → Option Bytes) (name : String) (data : Bytes) :
    writeFile files name data name = some data := by
  simp [writeFile]

namespace DataDir

def masterKeyPath (dir : DataDir) : String := dir.path ++ "/storage/master.key"

def carbonadoDir (dir : DataDir) : String := dir.path ++ "/carbonado"

def carbonadoRelativePath (baoRootHex : String) (format : UInt8) : String :=
  s!"{baoRootHex}.c{format}"

end DataDir

def containsDotDot : List Char → Bool
  | '.' :: '.' :: _ => true
  | _ :: rest => containsDotDot rest
  | [] => false

/-- Reject path traversal in stored carbonado relative paths (basename only). -/
def validateCarbonadoRelativePath (path : String) : Result Unit :=
  if path.toList.isEmpty then
    .error "carbonado path must not be empty"
  else if containsDotDot path.toList then
    .error "carbonado path must not contain `..`"
  else if '/' ∈ path.toList ∨ '\\' ∈ path.toList then
    .error "carbonado path must be a basename under carbonado/"
  else if path = "." then
    .error "carbonado path must be a single path component"
  else
    .ok ()

/-- `std::fs::read` of a file below `carbonado/`. -/
def readCarbonado (dir : DataDir) (relativePath : String) : Result Bytes :=
  okOr (dir.carbonado relativePath)
    ⟨s!"failed to read carbonado file `{dir.carbonadoDir}/{relativePath}`", [noSuchFile]⟩

/-! ### The master key -/

/-- Zero master key for public (even) formats. -/
def publicMasterKey : Bytes32 := Bytes32.replicate 0

def parseMasterKeyBytes (bytes : Bytes) : Result Bytes32 :=
  if h : bytes.length = 32 then .ok ⟨bytes, h⟩ else .error "master key must be exactly 32 bytes"

def parseMasterKeyHex (hex : String) : Result Bytes32 :=
  match Hex.decode hex with
  | some bytes => parseMasterKeyBytes bytes
  | none => .error "invalid --master-key-hex"

def readMasterKeyFile (dir : DataDir) (file : MasterKeyFile) : Result Bytes32 :=
  if file.mode &&& 0o077 ≠ 0 then
    .error (s!"master key `{dir.masterKeyPath}` has overly permissive mode " ++
      s!"{String.ofList (Nat.toDigits 8 file.mode)}; expected 0600 or tighter")
  else
    parseMasterKeyBytes file.bytes

/-- Load an existing master key for verification (never creates `master.key`). -/
def loadMasterKey (dir : DataDir) (masterKeyHex : Option String) : Result Bytes32 :=
  match masterKeyHex with
  | some hex => parseMasterKeyHex hex
  | none =>
    match dir.masterKey with
    | none => .error (s!"missing master key at `{dir.masterKeyPath}`; " ++
        "pass --master-key-hex or encode an encrypted format first")
    | some file => readMasterKeyFile dir file

def masterKeyForVerify (format : UInt8) (dir : DataDir) (masterKeyHex : Option String) :
    Result Bytes32 :=
  if format % 2 = 0 then .ok publicMasterKey else loadMasterKey dir masterKeyHex

/-- `hex::decode` of a bao root and its length check. -/
def parseBaoRoot (baoRootHex : String) : Result Bytes32 :=
  match Hex.decode baoRootHex with
  | none => .error "invalid bao root hex"
  | some bytes =>
    if h : bytes.length = 32 then .ok ⟨bytes, h⟩ else .error "bao root must be 32 bytes"

@[simp] theorem parseBaoRoot_encode (baoRoot : Bytes32) :
    parseBaoRoot (Hex.encode baoRoot.val) = .ok baoRoot := by
  simp [parseBaoRoot, baoRoot.property]

end Lord.Storage
