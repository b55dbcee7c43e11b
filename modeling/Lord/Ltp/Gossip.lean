import Lord.Ltp.Handler
import Lord.Market.NodeRuns

/-! The gossip network: peers that publish on the topic of their chain, and stage what they receive on it.
Messages reach a peer in any order, again or never, and anyone may publish beside the peers. -/

namespace Lord.Ltp

open Storage Ots Market Payments

/-! ### Publishing -/

/-- Deterministic gossip topic per chain for breccia tail frames. -/
def brecciaTailTopic (chain : LtpChain) : Bytes32 :=
  let chainByte : UInt8 := match chain with
    | .mainnet => 0
    | .signet => 1
    | .testnet | .testnet4 => 2
    | .regtest => 3
  ⟨[0x4c, 0x54, 0x50, chainByte] ++ List.replicate 28 0, rfl⟩

/-- A payload of one of the kinds that peers publish and stage. -/
inductive Publication where
  | tail (tail : BrecciaTailPayload)
  | proof (proof : PaymentProofPayload)
  | challenge (challenge : BaoChallengePayload)

namespace Publication

def messageType : Publication → LtpMessageType
  | tail _ => .brecciaTail
  | proof _ => .paymentProof
  | challenge _ => .baoChallenge

def baoRoot : Publication → Bytes32
  | tail payload => payload.baoRoot
  | proof payload => payload.baoRoot
  | challenge payload => payload.baoRoot

def json : Publication → Json
  | tail payload => payload.json
  | proof payload => payload.json
  | challenge payload => payload.json

/-- `serde_json::to_vec`. -/
def payload (publication : Publication) : Bytes :=
  Utf8.encode (String.ofList publication.json.write)

/-- The frame that a publication is sent in. -/
def frame (publication : Publication) (chain : LtpChain) : LtpFrame where
  version := ltpFrameVersion
  chainId := chain.chainId
  messageType := publication.messageType
  payload := publication.payload

/-- The bytes of that frame. -/
def content (publication : Publication) (chain : LtpChain) : Bytes :=
  Utf8.encode (String.ofList (publication.frame chain).json.write)

/-- The payload reads as this publication. -/
def ReadFrom [LtpJson] (publication : Publication) (payload : Bytes) : Prop :=
  match publication with
  | tail t => LtpJson.decodeBrecciaTail payload = .ok t
  | proof p => LtpJson.decodePaymentProof payload = .ok p
  | challenge c => LtpJson.decodeBaoChallenge payload = .ok c

/-- What a payload binds to its root. -/
def Binds [Digests] : Publication → Prop
  | tail payload => payload.startDigest = commitmentDigest payload.baoRoot
  | proof payload => payload.amountSats ≠ 0 ∧ payload.purpose ∈ paymentPurposeLabels ∧
      payload.ecashReference = expectedEcashReference payload.baoRoot payload.purpose
  | challenge payload => payload.sampleRate ≠ 0

/-- Payment proofs and challenges are about a storage contract. -/
def AboutContract : Publication → Prop
  | tail _ => False
  | proof _ => True
  | challenge _ => True

end Publication

/-- `storage_contract_exists`, on a market store that opens or not. -/
def storageContractExists (n : Node) (openMarket : Result Unit) (baoRoot : Bytes32) : Result Bool :=
  openMarket.map fun _ => (n.getContract baoRoot).isSome

/-- What a peer takes from its node when it handles a message. -/
def inboundEnv (n : Node) (now : Result UInt64) (openMarket : Result Unit) (append : AppendEnv) :
    InboundEnv where
  now
  storageContractExists := storageContractExists n openMarket
  append

/-- `publish_breccia_tail`, `publish_payment_proof` and `publish_bao_challenge`: the checks in front of
the broadcast.  A tail is not checked. -/
def Publication.validate (publication : Publication) (storageContractExists : Bytes32 → Result Bool) :
    Result Unit :=
  match publication with
  | .tail _ => .ok ()
  | .proof payload => do
    validatePaymentProofPayload payload
    ensureStorageContractForRoot storageContractExists payload.baoRoot
  | .challenge payload => do
    validateBaoChallengePayload payload
    ensureStorageContractForRoot storageContractExists payload.baoRoot

/-- The message that is broadcast. -/
def publish (n : Node) (chain : LtpChain) (publication : Publication)
    (openMarket broadcast : Result Unit) : Result Bytes := do
  publication.validate (storageContractExists n openMarket)
  broadcast
  .ok (publication.content chain)

/-! ### The network -/

/-- A message on a topic, of a peer or of someone else. -/
structure Message (ι : Type) where
  sender : Option ι
  topic : Bytes32
  content : Bytes

structure Peer where
  node : Node
  inbound : InboundFiles

structure Network (ι : Type) where
  peer : ι → Peer
  /-- Every message that was broadcast. -/
  wire : List (Message ι)

/-- A call on the node of a peer, a publication, a message of someone who is no peer, or the arrival of a
message at a peer. -/
inductive NetworkEvent (ι : Type) where
  | call (i : ι) (call : NodeCall)
  | publish (i : ι) (publication : Publication) (openMarket broadcast : Result Unit)
  | foreign (topic : Bytes32) (content : Bytes)
  | deliver (i : ι) (position : Nat) (now : Result UInt64) (openMarket : Result Unit)
    (append : AppendEnv)

namespace Network

variable {ι : Type} [DecidableEq ι] (chain : ι → LtpChain)
variable [Carbonado] [Digests] [OtsCodec] [MicroPaymentJson] [LtpJson]

/-- The peers, each with its node, before anything was published. -/
def fresh (node : ι → Node) : Network ι where
  peer i := ⟨node i, noInbound⟩
  wire := []

def update (net : Network ι) (i : ι) (peer : Peer) : Network ι :=
  { net with peer := Function.update net.peer i peer }

/-- The handler of the messages on the topic of the peer's chain; its errors are logged only. -/
def receive (net : Network ι) (i : ι) (message : Message ι) (env : InboundEnv) : Network ι :=
  if message.topic ≠ brecciaTailTopic (chain i) then
    net
  else
    let peer := net.peer i
    let handled :=
      handleInboundMessage (chain i) peer.node.dir.path env message.content peer.inbound
    net.update i { peer with inbound := handled.2 }

def exec (net : Network ι) (event : NetworkEvent ι) : Network ι :=
  match event with
  | .call i call => net.update i { net.peer i with node := (net.peer i).node.exec call }
  | .publish i publication openMarket broadcast =>
    match Ltp.publish (net.peer i).node (chain i) publication openMarket broadcast with
    | .error _ => net
    | .ok content => { net with wire := net.wire ++ [⟨some i, brecciaTailTopic (chain i), content⟩] }
  | .foreign topic content => { net with wire := net.wire ++ [⟨none, topic, content⟩] }
  | .deliver i position now openMarket append =>
    match net.wire[position]? with
    | none => net
    | some message =>
      net.receive chain i message (inboundEnv (net.peer i).node now openMarket append)

end Network

/-! ### Topics and frames -/

/-- Chains share a topic when they share the id; the two testnets do. -/
theorem brecciaTailTopic_eq_iff {chain other : LtpChain} :
    brecciaTailTopic chain = brecciaTailTopic other ↔ chain.chainId = other.chainId := by
  cases chain <;> cases other <;> decide

/-- The record that a publication is staged as. -/
def Publication.record (publication : Publication) (receivedAt : UInt64) (frame : LtpFrame) :
    InboundRecord :=
  match publication with
  | tail payload => ⟨.tails, ⟨receivedAt, frame, payload⟩⟩
  | proof payload => ⟨.paymentProofs, ⟨receivedAt, frame, payload⟩⟩
  | challenge payload => ⟨.baoChallenges, ⟨receivedAt, frame, payload⟩⟩

section

variable [Digests]

theorem validatePaymentProofPayload_ok {payload : PaymentProofPayload} :
    validatePaymentProofPayload payload = .ok () ↔ (Publication.proof payload).Binds := by
  unfold validatePaymentProofPayload Publication.Binds
  split
  · rename_i h
    simp [h]
  split
  · rename_i h
    simp [h]
  split
  · rename_i h
    simp [h]
  · rename_i hamount hpurpose hreference
    simpa using ⟨hamount, by simpa using hpurpose, by simpa using hreference⟩

theorem validateBaoChallengePayload_ok {payload : BaoChallengePayload} :
    validateBaoChallengePayload payload = .ok () ↔ (Publication.challenge payload).Binds := by
  unfold validateBaoChallengePayload Publication.Binds
  split
  · rename_i h
    simp [h]
  · rename_i h
    simpa using h

theorem validateBrecciaTailPayload_ok {payload : BrecciaTailPayload} :
    validateBrecciaTailPayload payload = .ok () ↔ (Publication.tail payload).Binds := by
  unfold validateBrecciaTailPayload Publication.Binds
  split
  · rename_i h
    simp [h]
  · rename_i h
    simpa using h

omit [Digests] in
theorem ensureStorageContractForRoot_ok {storageContractExists : Bytes32 → Result Bool}
    {baoRoot : Bytes32} : ensureStorageContractForRoot storageContractExists baoRoot = .ok () ↔
      storageContractExists baoRoot = .ok true := by
  unfold ensureStorageContractForRoot
  rw [bind_eq_ok]
  constructor
  · rintro ⟨found, hfound, h⟩
    cases found with
    | true => exact hfound
    | false => cases h
  · intro h
    exact ⟨true, h, rfl⟩

end

end Lord.Ltp
