import Lord.Ltp.Acceptance

/-! Runs of the gossip network, over any interleaving of its peers.  What a peer appends to its staging
files is bound to its root, and was published by a peer on a chain of the same id or by someone who is no
peer; and what a peer publishes is appended wherever it arrives with its contract, and read back as long as
no append behind it or in front of it tears the file. -/

namespace Lord.Ltp

open Storage Payments Ots Market Runs History

/-! ### One event -/

/-- The call of an event on the node of a peer. -/
def NetworkEvent.callOf {ι : Type} [DecidableEq ι] (i : ι) : NetworkEvent ι → Option NodeCall
  | .call j nodeCall => if j = i then some nodeCall else none
  | .publish .. => none
  | .foreign .. => none
  | .deliver .. => none

/-- The calls on the node of a peer. -/
def callsOf {ι : Type} [DecidableEq ι] (i : ι) (events : List (NetworkEvent ι)) : List NodeCall :=
  events.filterMap (NetworkEvent.callOf i)

section

variable {ι : Type} [DecidableEq ι]

namespace Network

@[simp] theorem update_peer_self (net : Network ι) (i : ι) (peer : Peer) :
    (net.update i peer).peer i = peer := Function.update_self ..

theorem update_peer_of_ne (net : Network ι) {i j : ι} (peer : Peer) (h : j ≠ i) :
    (net.update i peer).peer j = net.peer j := Function.update_of_ne h ..

@[simp] theorem update_wire (net : Network ι) (i : ι) (peer : Peer) :
    (net.update i peer).wire = net.wire := rfl

section

variable (chain : ι → LtpChain) [Digests] [LtpJson]

/-- A message on another topic, or one that is not accepted, changes nothing. -/
theorem receive_refused (net : Network ι) (i : ι) (message : Message ι) (env : InboundEnv)
    (h : ¬∃ frame publication receivedAt, message.topic = brecciaTailTopic (chain i) ∧
      Accepted (chain i) env message.content frame publication receivedAt) :
    net.receive chain i message env = net := by
  unfold receive
  split
  · rfl
  · rename_i htopic
    cases hcheck : checkInboundMessage (chain i) env message.content with
    | error err => simp only [handleInboundMessage, hcheck, update, Function.update_eq_self]
    | ok added =>
      obtain ⟨frame, publication, receivedAt, haccepted, -⟩ := checkInboundMessage_eq_ok.mp hcheck
      exact absurd ⟨frame, publication, receivedAt, not_not.mp htopic, haccepted⟩ h

/-- The record of an accepted message is appended. -/
theorem receive_accepted (net : Network ι) {i : ι} {message : Message ι} {env : InboundEnv}
    {frame : LtpFrame} {publication : Publication} {receivedAt : UInt64}
    (htopic : message.topic = brecciaTailTopic (chain i))
    (h : Accepted (chain i) env message.content frame publication receivedAt) :
    net.receive chain i message env = net.update i { net.peer i with
      inbound := (appendInbound (net.peer i).node.dir.path env.append
        (publication.record receivedAt frame) (net.peer i).inbound).2 } := by
  have hcheck : checkInboundMessage (chain i) env message.content =
      .ok (publication.record receivedAt frame) :=
    checkInboundMessage_eq_ok.mpr ⟨frame, publication, receivedAt, h, rfl⟩
  simp only [receive, htopic, ne_eq, not_true_eq_false, if_false, handleInboundMessage, hcheck]

theorem receive_node (net : Network ι) (i j : ι) (message : Message ι) (env : InboundEnv) :
    ((net.receive chain i message env).peer j).node = (net.peer j).node := by
  unfold receive
  split
  · rfl
  · by_cases hj : j = i
    · subst hj
      rw [update_peer_self]
    · rw [update_peer_of_ne net _ hj]

theorem receive_wire (net : Network ι) (i : ι) (message : Message ι) (env : InboundEnv) :
    (net.receive chain i message env).wire = net.wire := by
  unfold receive
  split <;> rfl

/-- The record that an event appends at a peer, with how the append goes. -/
def appended (net : Network ι) (i : ι) : NetworkEvent ι → List (InboundRecord × AppendEnv)
  | .call .. => []
  | .publish .. => []
  | .foreign .. => []
  | .deliver j position now openMarket append =>
    match net.wire[position]? with
    | none => []
    | some message =>
      if j = i ∧ message.topic = brecciaTailTopic (chain i) then
        match checkInboundMessage (chain i) (inboundEnv (net.peer i).node now openMarket append)
            message.content with
        | .error _ => []
        | .ok added => [(added, append)]
      else []

theorem appended_of_checked {net : Network ι} {i : ι} {position : Nat} {now : Result UInt64}
    {openMarket : Result Unit} {append : AppendEnv} {message : Message ι} {added : InboundRecord}
    (hmessage : net.wire[position]? = some message) (htopic : message.topic = brecciaTailTopic (chain i))
    (hcheck : checkInboundMessage (chain i) (inboundEnv (net.peer i).node now openMarket append)
      message.content = .ok added) :
    net.appended chain i (.deliver i position now openMarket append) = [(added, append)] := by
  simp only [appended, hmessage, htopic, hcheck, and_self, if_true]

/-- Records are appended when accepted messages arrive. -/
theorem mem_appended {net : Network ι} {i : ι} {event : NetworkEvent ι} {added : InboundRecord}
    {append : AppendEnv} : (added, append) ∈ net.appended chain i event ↔
      ∃ position now openMarket message, event = .deliver i position now openMarket append ∧
        net.wire[position]? = some message ∧ message.topic = brecciaTailTopic (chain i) ∧
        ∃ frame publication receivedAt, Accepted (chain i)
          (inboundEnv (net.peer i).node now openMarket append) message.content frame publication
            receivedAt ∧
          added = publication.record receivedAt frame := by
  constructor
  · intro h
    cases event with
    | call j call => cases h
    | publish j publication openMarket broadcast => cases h
    | foreign topic content => cases h
    | deliver j position now openMarket env =>
      simp only [appended] at h
      split at h
      · cases h
      rename_i message hmessage
      split at h
      · rename_i hhere
        obtain ⟨rfl, htopic⟩ := hhere
        split at h
        · cases h
        · rename_i checked hcheck
          cases List.mem_singleton.mp h
          exact ⟨position, now, openMarket, message, rfl, hmessage, htopic,
            checkInboundMessage_eq_ok.mp hcheck⟩
      · cases h
  · rintro ⟨position, now, openMarket, message, rfl, hmessage, htopic, haccepted⟩
    rw [appended_of_checked chain hmessage htopic (checkInboundMessage_eq_ok.mpr haccepted)]
    exact List.mem_singleton_self _

end

variable (chain : ι → LtpChain) [Carbonado] [Digests] [OtsCodec] [MicroPaymentJson] [LtpJson]

/-- The nodes take their own calls. -/
theorem exec_node (net : Network ι) (event : NetworkEvent ι) (i : ι) :
    ((net.exec chain event).peer i).node = run Node.exec (net.peer i).node (callsOf i [event]) := by
  cases event with
  | call j call =>
    by_cases hj : j = i
    · subst hj
      simp [exec, callsOf, NetworkEvent.callOf, run]
    · simp [exec, callsOf, NetworkEvent.callOf, run, hj, update_peer_of_ne net _ (Ne.symm hj)]
  | publish j publication openMarket broadcast =>
    simp only [exec]
    split <;> rfl
  | foreign topic content => rfl
  | deliver j position now openMarket append =>
    simp only [exec]
    split
    · rfl
    · exact receive_node chain net j i _ _

/-- What an event adds to the wire. -/
theorem exec_wire (net : Network ι) (event : NetworkEvent ι) :
    (net.exec chain event).wire = net.wire ∨
    (∃ i publication openMarket broadcast content,
      event = .publish i publication openMarket broadcast ∧
      publish (net.peer i).node (chain i) publication openMarket broadcast = .ok content ∧
      (net.exec chain event).wire = net.wire ++ [⟨some i, brecciaTailTopic (chain i), content⟩]) ∨
    ∃ topic content, event = .foreign topic content ∧
      (net.exec chain event).wire = net.wire ++ [⟨none, topic, content⟩] := by
  cases event with
  | call j call => exact .inl rfl
  | publish i publication openMarket broadcast =>
    cases hrun : publish (net.peer i).node (chain i) publication openMarket broadcast with
    | error err =>
      left
      simp only [exec, hrun]
    | ok content =>
      refine .inr (.inl ⟨i, publication, openMarket, broadcast, content, rfl, hrun, ?_⟩)
      simp only [exec, hrun]
  | foreign topic content => exact .inr (.inr ⟨topic, content, rfl, rfl⟩)
  | deliver j position now openMarket append =>
    left
    simp only [exec]
    split
    · rfl
    · exact receive_wire chain net j _ _

/-- The file of a kind at a peer takes the appends of that kind there. -/
theorem exec_inbound (net : Network ι) (event : NetworkEvent ι) (i : ι) (kind : InboundKind)
    (chainDataDir : String) :
    ((net.exec chain event).peer i).inbound kind =
      run (fun file call => (kind.staging.append chainDataDir call.2 call.1 file).2)
        ((net.peer i).inbound kind) ((net.appended chain i event).filterMap kind.callOf) := by
  cases event with
  | call j call =>
    by_cases hj : i = j
    · subst hj
      simp [exec, appended, run]
    · simp [exec, appended, run, update_peer_of_ne net _ hj]
  | publish j publication openMarket broadcast =>
    simp only [exec]
    split <;> rfl
  | foreign topic content => rfl
  | deliver j position now openMarket append =>
    cases hmessage : net.wire[position]? with
    | none => simp [exec, appended, hmessage, run]
    | some message =>
      simp only [exec, appended, hmessage]
      by_cases hj : j = i
      · subst hj
        unfold receive
        by_cases htopic : message.topic = brecciaTailTopic (chain j)
        · simp only [htopic, ne_eq, not_true_eq_false, if_false, and_self, if_true, update_peer_self,
            handleInboundMessage]
          cases hcheck : checkInboundMessage (chain j)
            (inboundEnv (net.peer j).node now openMarket append) message.content with
          | error err => rfl
          | ok added => exact appendInbound_file _ chainDataDir (added, append) _ kind
        · simp [htopic, run]
      · rw [if_neg fun h => hj h.1]
        unfold receive
        split
        · rfl
        · rw [update_peer_of_ne net _ (Ne.symm hj)]
          rfl

end Network

theorem callsOf_append (i : ι) (events : List (NetworkEvent ι)) (event : NetworkEvent ι) :
    callsOf i (events ++ [event]) = callsOf i events ++ callsOf i [event] := by
  simp [callsOf]

variable {chain : ι → LtpChain} [Carbonado] [Digests] [OtsCodec] [MicroPaymentJson] [LtpJson]

/-! ### Where the records come from -/

section

variable (chain) (node : ι → Node)

/-- The network behind a list of events. -/
def networkAfter (events : List (NetworkEvent ι)) : Network ι :=
  run (Network.exec chain) (Network.fresh node) events

/-- The event is a publication that this peer broadcasts. -/
def Publishes (j : ι) (publication : Publication) (front : List (NetworkEvent ι))
    (event : NetworkEvent ι) : Prop :=
  ∃ openMarket broadcast content, event = .publish j publication openMarket broadcast ∧
    publish ((networkAfter chain node front).peer j).node (chain j) publication openMarket broadcast =
      .ok content

/-- The root of a publication about a contract has one at the peer, by a request that was admitted. -/
def HasContract (i : ι) (publication : Publication) (events : List (NetworkEvent ι)) : Prop :=
  publication.AboutContract → Requested (node i) publication.baoRoot (callsOf i events)

/-- A message on the wire. -/
def WireFrom (events : List (NetworkEvent ι)) (message : Message ι) : Prop :=
  match message.sender with
  | none => .foreign message.topic message.content ∈ events
  | some j => ∃ publication, message.topic = brecciaTailTopic (chain j) ∧
      message.content = publication.content (chain j) ∧
      Occurs (Publishes chain node j publication) events ∧ HasContract node j publication events

/-- What a peer appends to its file of a kind, in order. -/
def appendsOf (kind : InboundKind) (i : ι) (events : List (NetworkEvent ι)) :
    List (kind.Record × AppendEnv) :=
  emitted (Network.exec chain) (fun net event => (net.appended chain i event).filterMap kind.callOf)
    (Network.fresh node) events

/-- A record that a peer appends to its staging. -/
structure StagedFrom (events : List (NetworkEvent ι)) (i : ι) (frame : LtpFrame)
    (publication : Publication) : Prop where
  version : frame.version = ltpFrameVersion
  chainId : frame.chainId = (chain i).chainId
  messageType : frame.messageType = publication.messageType
  read : publication.ReadFrom frame.payload
  binds : publication.Binds
  contract : HasContract node i publication events
  /-- A peer on a chain of the same id published it, under a contract of its own, or the frame came on
  the topic from someone who is no peer. -/
  source : (∃ j, (chain j).chainId = (chain i).chainId ∧ frame = publication.frame (chain j) ∧
      Occurs (Publishes chain node j publication) events ∧ HasContract node j publication events) ∨
    ∃ content, .foreign (brecciaTailTopic (chain i)) content ∈ events ∧
      LtpJson.decodeFrame content = .ok frame

/-- The record of a publication that is staged so. -/
def Sourced (events : List (NetworkEvent ι)) (i : ι) (added : InboundRecord) : Prop :=
  ∃ receivedAt frame publication, added = publication.record receivedAt frame ∧
    StagedFrom chain node events i frame publication

/-- What is published in a list of events reads back. -/
def ReadsBack (events : List (NetworkEvent ι)) : Prop :=
  ∀ j publication openMarket broadcast, .publish j publication openMarket broadcast ∈ events →
    LtpJson.decodeFrame (publication.content (chain j)) = .ok (publication.frame (chain j)) ∧
      publication.ReadFrom publication.payload

end

variable {node : ι → Node} {events : List (NetworkEvent ι)} {event : NetworkEvent ι}

theorem networkAfter_append (events : List (NetworkEvent ι)) (event : NetworkEvent ι) :
    networkAfter chain node (events ++ [event]) = (networkAfter chain node events).exec chain event :=
  run_append ..

/-- The node of a peer is behind the calls on it. -/
theorem networkAfter_node (events : List (NetworkEvent ι)) (i : ι) :
    ((networkAfter chain node events).peer i).node = run Node.exec (node i) (callsOf i events) := by
  induction events using List.reverseRecOn with
  | nil => rfl
  | append_singleton front event ih =>
    rw [networkAfter_append, Network.exec_node, ih, callsOf_append]
    simp [run]

/-- The file of a kind at a peer is behind the appends of that kind there. -/
theorem networkAfter_inbound (events : List (NetworkEvent ι)) (i : ι) (kind : InboundKind)
    (chainDataDir : String) :
    ((networkAfter chain node events).peer i).inbound kind =
      (run (Staging.exec kind.staging chainDataDir) Staging.start
        (appendsOf chain node kind i events)).file := by
  have hstep (net : Network ι) (event : NetworkEvent ι) :=
    Network.exec_inbound chain net event i kind chainDataDir
  rw [Staging.run_file]
  exact run_part (p := fun net : Network ι => (net.peer i).inbound kind) hstep (Network.fresh node) events

/-- Each append is that of the record of an accepted message. -/
theorem mem_appendsOf {kind : InboundKind} {i : ι} {call : kind.Record × AppendEnv} :
    call ∈ appendsOf chain node kind i events ↔
      Occurs (fun front event => ((⟨kind, call.1⟩ : InboundRecord), call.2) ∈
        (networkAfter chain node front).appended chain i event) events := by
  rw [appendsOf, mem_emitted]
  simp only [List.mem_filterMap, InboundKind.callOf_eq_some, exists_eq_right]
  rfl

omit [LtpJson] in
theorem HasContract.of_prefix {i : ι} {publication : Publication} {front : List (NetworkEvent ι)}
    (h : HasContract node i publication front) (hwithin : front <+: events) :
    HasContract node i publication events := by
  intro hcontract
  obtain ⟨contract, hroot, hrequest⟩ := h hcontract
  exact ⟨contract, hroot, hrequest.of_prefix (hwithin.filterMap _)⟩

theorem WireFrom.append {message : Message ι} (h : WireFrom chain node events message)
    (event : NetworkEvent ι) : WireFrom chain node (events ++ [event]) message := by
  unfold WireFrom at h ⊢
  split at h
  · exact List.mem_append_left _ h
  · obtain ⟨publication, htopic, hcontent, hpublish, hcontract⟩ := h
    exact ⟨publication, htopic, hcontent, hpublish.append event,
      hcontract.of_prefix (List.prefix_append ..)⟩

theorem StagedFrom.of_prefix {i : ι} {frame : LtpFrame} {publication : Publication}
    {front : List (NetworkEvent ι)} (h : StagedFrom chain node front i frame publication)
    (hwithin : front <+: events) : StagedFrom chain node events i frame publication := by
  refine { h with contract := h.contract.of_prefix hwithin, source := ?_ }
  rcases h.source with ⟨j, hchain, hframe, hpublish, hcontract⟩ | ⟨content, hforeign, hdecode⟩
  · exact .inl ⟨j, hchain, hframe, hpublish.of_prefix hwithin, hcontract.of_prefix hwithin⟩
  · exact .inr ⟨content, hwithin.subset hforeign, hdecode⟩

/-- The contract that a check finds was requested. -/
theorem requested_of_storageContractExists (hfresh : ∀ i, ∃ dir ledger payments,
      node i = Node.fresh dir ledger payments) {i : ι} {openMarket : Result Unit} {baoRoot : Bytes32}
    (h : storageContractExists ((networkAfter chain node events).peer i).node openMarket baoRoot =
      .ok true) : Requested (node i) baoRoot (callsOf i events) := by
  obtain ⟨dir, ledger, payments, hnode⟩ := hfresh i
  rw [networkAfter_node] at h
  cases openMarket with
  | error err => cases h
  | ok u =>
    have hcontract : ((run Node.exec (node i) (callsOf i events)).getContract baoRoot).isSome = true :=
      Except.ok.inj h
    rw [hnode] at hcontract ⊢
    exact (traced_run dir ledger payments (callsOf i events)).requested hcontract

/-- What the checks in front of a broadcast find at the peer. -/
theorem publish_ok (hfresh : ∀ i, ∃ dir ledger payments, node i = Node.fresh dir ledger payments)
    {j : ι} {publication : Publication} {openMarket broadcast : Result Unit} {content : Bytes}
    (h : publish ((networkAfter chain node events).peer j).node (chain j) publication openMarket
      broadcast = .ok content) :
    content = publication.content (chain j) ∧ HasContract node j publication events := by
  obtain ⟨⟨⟩, hvalid, h⟩ := bind_eq_ok.mp h
  obtain ⟨⟨⟩, -, h⟩ := bind_eq_ok.mp h
  refine ⟨(Except.ok.inj h).symm, fun hcontract => ?_⟩
  cases publication with
  | tail payload => exact hcontract.elim
  | proof payload =>
    obtain ⟨⟨⟩, -, hensure⟩ := bind_eq_ok.mp hvalid
    exact requested_of_storageContractExists hfresh (ensureStorageContractForRoot_ok.mp hensure)
  | challenge payload =>
    obtain ⟨⟨⟩, -, hensure⟩ := bind_eq_ok.mp hvalid
    exact requested_of_storageContractExists hfresh (ensureStorageContractForRoot_ok.mp hensure)

theorem wireFrom_networkAfter
    (hfresh : ∀ i, ∃ dir ledger payments, node i = Node.fresh dir ledger payments)
    (events : List (NetworkEvent ι)) :
    ∀ message ∈ (networkAfter chain node events).wire, WireFrom chain node events message := by
  induction events using List.reverseRecOn with
  | nil =>
    intro message hmessage
    cases hmessage
  | append_singleton front event ih =>
    intro message hmessage
    rw [networkAfter_append] at hmessage
    have hkept : ∀ message ∈ (networkAfter chain node front).wire,
        WireFrom chain node (front ++ [event]) message :=
      fun message hmessage => (ih message hmessage).append event
    rcases Network.exec_wire chain (networkAfter chain node front) event with hwire |
      ⟨j, publication, openMarket, broadcast, content, rfl, hpublish, hwire⟩ |
      ⟨topic, content, rfl, hwire⟩
    · rw [hwire] at hmessage
      exact hkept message hmessage
    · rw [hwire, List.mem_append, List.mem_singleton] at hmessage
      rcases hmessage with hold | rfl
      · exact hkept message hold
      · obtain ⟨rfl, hcontract⟩ := publish_ok hfresh hpublish
        refine ⟨publication, rfl, ?_, .last ⟨openMarket, broadcast, _, rfl, hpublish⟩,
          hcontract.of_prefix (List.prefix_append ..)⟩
        dsimp only
    · rw [hwire, List.mem_append, List.mem_singleton] at hmessage
      rcases hmessage with hold | rfl
      · exact hkept message hold
      · exact List.mem_append_right _ (List.mem_singleton_self _)

omit [Carbonado] [Digests] [OtsCodec] [MicroPaymentJson] [DecidableEq ι] in
/-- A payload reads as one publication of its kind. -/
theorem Publication.ReadFrom.unique {publication other : Publication} {payload : Bytes}
    (h : publication.ReadFrom payload) (h' : other.ReadFrom payload)
    (htype : publication.messageType = other.messageType) : publication = other := by
  cases publication <;> cases other <;> cases htype
  all_goals
    rw [Publication.ReadFrom] at h h'
    rw [h] at h'
    cases h'
    rfl

/-- A published message that is staged is staged as what was published. -/
theorem ReadsBack.accepted (h : ReadsBack chain events) {i j : ι} {env : InboundEnv}
    {frame : LtpFrame} {publication other : Publication} {receivedAt : UInt64}
    (hpublish : Occurs (Publishes chain node j publication) events)
    (haccepted : Accepted (chain i) env (publication.content (chain j)) frame other receivedAt) :
    other = publication ∧ frame = publication.frame (chain j) := by
  obtain ⟨front, event, hprefix, openMarket, broadcast, content, rfl, -⟩ := hpublish
  have hmem : NetworkEvent.publish j publication openMarket broadcast ∈ events :=
    hprefix.subset (List.mem_append_right _ (List.mem_singleton_self _))
  obtain ⟨hframe, hread⟩ := h j publication openMarket broadcast hmem
  have hsame := haccepted.decoded
  rw [hframe] at hsame
  obtain rfl := Except.ok.inj hsame
  exact ⟨haccepted.read.unique hread haccepted.messageType.symm, rfl⟩

/-- The peers before any of their calls. -/
def freshNodes (dir : ι → DataDir) (ledger : ι → MicroPaymentLedger)
    (payments : ι → List PaymentDetails) (i : ι) : Node :=
  Node.fresh (dir i) (ledger i) (payments i)

/-- The record of an accepted message is sourced. -/
theorem stagedFrom_of_accepted
    (hfresh : ∀ i, ∃ dir ledger payments, node i = Node.fresh dir ledger payments)
    (hreads : ReadsBack chain events) {i : ι} {message : Message ι} {now : Result UInt64}
    {openMarket : Result Unit} {append : AppendEnv} {frame : LtpFrame} {publication : Publication}
    {receivedAt : UInt64} (hmessage : message ∈ (networkAfter chain node events).wire)
    (htopic : message.topic = brecciaTailTopic (chain i))
    (h : Accepted (chain i) (inboundEnv ((networkAfter chain node events).peer i).node now openMarket
      append) message.content frame publication receivedAt) :
    StagedFrom chain node events i frame publication := by
  have hcontract : HasContract node i publication events := fun habout =>
    requested_of_storageContractExists hfresh (h.contract habout)
  refine ⟨h.version, h.chainId, h.messageType, h.read, h.binds, hcontract, ?_⟩
  have hwire := wireFrom_networkAfter hfresh events message hmessage
  unfold WireFrom at hwire
  split at hwire
  · rw [htopic] at hwire
    exact .inr ⟨message.content, hwire, h.decoded⟩
  · rename_i j hsender
    obtain ⟨published, htopic', hcontent, hpublish, hsenderContract⟩ := hwire
    rw [hcontent] at h
    obtain ⟨rfl, hframe⟩ := hreads.accepted hpublish h
    exact .inl ⟨j, brecciaTailTopic_eq_iff.mp (htopic'.symm.trans htopic), hframe, hpublish,
      hsenderContract⟩

theorem sourced_of_mem_appendsOf
    (hfresh : ∀ i, ∃ dir ledger payments, node i = Node.fresh dir ledger payments)
    (hreads : ReadsBack chain events) {i : ι} {kind : InboundKind} {call : kind.Record × AppendEnv}
    (h : call ∈ appendsOf chain node kind i events) : Sourced chain node events i ⟨kind, call.1⟩ := by
  obtain ⟨front, event, hwithin, happended⟩ := mem_appendsOf.mp h
  obtain ⟨position, now, openMarket, message, -, hmessage, htopic, frame, publication, receivedAt,
    haccepted, hadded⟩ := Network.mem_appended chain |>.mp happended
  have hfront : front <+: events := (List.prefix_append ..).trans hwithin
  have hreadsFront : ReadsBack chain front := fun j publication openMarket broadcast hmem =>
    hreads j publication openMarket broadcast (hfront.subset hmem)
  have hstaged := stagedFrom_of_accepted hfresh hreadsFront (List.mem_of_getElem? hmessage) htopic
    haccepted
  exact ⟨receivedAt, frame, publication, hadded, hstaged.of_prefix hfront⟩

/-- In every run each record that a peer appends to its staging, be it whole or torn, and so each record
that is read back, is bound to its root, lies at a peer with a contract when it is about one, and was
published by a peer of the same chain id or by someone who is no peer. -/
theorem staged_from_published (dir : ι → DataDir) (ledger : ι → MicroPaymentLedger)
    (payments : ι → List PaymentDetails) (events : List (NetworkEvent ι))
    (hreads : ReadsBack chain events) (i : ι) (kind : InboundKind) :
    (∀ call ∈ appendsOf chain (freshNodes dir ledger payments) kind i events,
      Sourced chain (freshNodes dir ledger payments) events i ⟨kind, call.1⟩) ∧
    ∀ fromStr chainDataDir records,
      Staging.ReadsBack kind.staging fromStr
        (appendsOf chain (freshNodes dir ledger payments) kind i events) →
      kind.staging.read fromStr chainDataDir
        (((networkAfter chain (freshNodes dir ledger payments) events).peer i).inbound kind) =
          .ok records →
      ∀ record ∈ records, Sourced chain (freshNodes dir ledger payments) events i ⟨kind, record⟩ := by
  have hfresh : ∀ i, ∃ d l p, freshNodes dir ledger payments i = Node.fresh d l p :=
    fun i => ⟨dir i, ledger i, payments i, rfl⟩
  generalize freshNodes dir ledger payments = node at hfresh ⊢
  refine ⟨fun call hcall => sourced_of_mem_appendsOf hfresh hreads hcall, ?_⟩
  intro fromStr chainDataDir records hback hread record hrecord
  rw [networkAfter_inbound events i kind chainDataDir] at hread
  obtain ⟨call, hcall, rfl⟩ := (Staging.read_run hback hread).2 record hrecord
  exact sourced_of_mem_appendsOf hfresh hreads hcall

/-! ### Where the messages arrive -/

/-- What it takes for a publication of one peer to be appended at another one. -/
structure Stageable (chain : ι → LtpChain) (node : ι → Node) (events : List (NetworkEvent ι)) (i j : ι)
    (publication : Publication) (now : Result UInt64) (openMarket : Result Unit) : Prop where
  chainId : (chain j).chainId = (chain i).chainId
  binds : publication.Binds
  now : ∃ receivedAt, now = .ok receivedAt
  contract : publication.AboutContract →
    openMarket = .ok () ∧ Requested (node i) publication.baoRoot (callsOf i events)

theorem accepted_iff (hfresh : ∀ i, ∃ dir ledger payments, node i = Node.fresh dir ledger payments)
    (hreads : ReadsBack chain events) {i j : ι} {publication : Publication} {now : Result UInt64}
    {openMarket : Result Unit} (append : AppendEnv)
    (hpublish : Occurs (Publishes chain node j publication) events) :
    (∃ frame other receivedAt, brecciaTailTopic (chain j) = brecciaTailTopic (chain i) ∧
      Accepted (chain i) (inboundEnv ((networkAfter chain node events).peer i).node now openMarket append)
        (publication.content (chain j)) frame other receivedAt) ↔
      Stageable chain node events i j publication now openMarket := by
  constructor
  · rintro ⟨frame, other, receivedAt, htopic, haccepted⟩
    obtain ⟨rfl, rfl⟩ := hreads.accepted hpublish haccepted
    refine ⟨brecciaTailTopic_eq_iff.mp htopic, haccepted.binds, ⟨receivedAt, haccepted.now⟩,
      fun habout => ?_⟩
    have hfound := haccepted.contract habout
    refine ⟨?_, requested_of_storageContractExists hfresh hfound⟩
    cases openMarket with
    | ok u => rfl
    | error err => cases hfound
  · intro h
    obtain ⟨receivedAt, hnow⟩ := h.now
    obtain ⟨front, event, hprefix, om, broadcast, content, rfl, -⟩ := hpublish
    have hmem : NetworkEvent.publish j publication om broadcast ∈ events :=
      hprefix.subset (List.mem_append_right _ (List.mem_singleton_self _))
    obtain ⟨hframe, hread⟩ := hreads j publication om broadcast hmem
    refine ⟨publication.frame (chain j), publication, receivedAt,
      brecciaTailTopic_eq_iff.mpr h.chainId, hframe, rfl, h.chainId, hnow, rfl, hread, h.binds,
      fun habout => ?_⟩
    obtain ⟨rfl, hrequested⟩ := h.contract habout
    have hcontract := getContract_of_requested hrequested
    rw [← networkAfter_node events i] at hcontract
    exact congrArg Except.ok hcontract

theorem networkAfter_deliver {i : ι} {position : Nat} {message : Message ι}
    (hmessage : (networkAfter chain node events).wire[position]? = some message) (now : Result UInt64)
    (openMarket : Result Unit) (append : AppendEnv) :
    networkAfter chain node (events ++ [.deliver i position now openMarket append]) =
      (networkAfter chain node events).receive chain i message
        (inboundEnv ((networkAfter chain node events).peer i).node now openMarket append) := by
  rw [networkAfter_append]
  simp only [Network.exec, hmessage]

/-- The arrival appends this record to the file of its kind at the peer and changes nothing else in the
network, whether the append works or stops on its way.  If it works, every later read returns the record
exactly when no append to the file, before or behind it, writes behind an unfinished line or stops
within the JSON of its own. -/
structure Lands (chain : ι → LtpChain) (node : ι → Node) (events : List (NetworkEvent ι)) (position : Nat)
    (i : ι) (now : Result UInt64) (openMarket : Result Unit) (append : AppendEnv)
    (added : InboundRecord) : Prop where
  appends : networkAfter chain node (events ++ [.deliver i position now openMarket append]) =
    (networkAfter chain node events).update i { (networkAfter chain node events).peer i with
      inbound := (appendInbound ((networkAfter chain node events).peer i).node.dir.path append added
        ((networkAfter chain node events).peer i).inbound).2 }
  works : (appendInbound ((networkAfter chain node events).peer i).node.dir.path append added
    ((networkAfter chain node events).peer i).inbound).1.isOk ↔ append.Works
  keeps : append.Works → ∀ later fromStr chainDataDir,
    Staging.ReadsBack added.kind.staging fromStr (appendsOf chain node added.kind i
      (events ++ [.deliver i position now openMarket append] ++ later)) →
    ((∃ records, added.kind.staging.read fromStr chainDataDir (((networkAfter chain node
          (events ++ [.deliver i position now openMarket append] ++ later)).peer i).inbound added.kind) =
        .ok records ∧ added.record ∈ records) ↔
      EachStep (Staging.exec added.kind.staging chainDataDir) (Staging.Clean added.kind.staging)
        Staging.start (appendsOf chain node added.kind i
          (events ++ [.deliver i position now openMarket append] ++ later)))

/-- The message at this position is a publication of peer `j`.  When it arrives at peer `i` its record
lands there if it can be staged, and else it changes nothing. -/
def Delivers (chain : ι → LtpChain) (node : ι → Node) (events : List (NetworkEvent ι)) (position : Nat)
    (i j : ι) (now : Result UInt64) (openMarket : Result Unit) (append : AppendEnv) : Prop :=
  ∃ publication, Occurs (Publishes chain node j publication) events ∧
    (Stageable chain node events i j publication now openMarket →
      ∃ receivedAt, now = .ok receivedAt ∧ Lands chain node events position i now openMarket append
        (publication.record receivedAt (publication.frame (chain j)))) ∧
    (¬Stageable chain node events i j publication now openMarket →
      networkAfter chain node (events ++ [.deliver i position now openMarket append]) =
        networkAfter chain node events)

/-- A record that is appended in full is returned by every read of the file that gets through it. -/
theorem reads_appended_iff {i : ι} {added : InboundRecord} {append : AppendEnv}
    (happended : (added.record, append) ∈ appendsOf chain node added.kind i events)
    (hvalid : (added.kind.staging.validate added.record).isOk = true) (hworks : append.Works)
    {fromStr : String → Result added.kind.Record} {chainDataDir : String}
    (hback : Staging.ReadsBack added.kind.staging fromStr (appendsOf chain node added.kind i events)) :
    (∃ records, added.kind.staging.read fromStr chainDataDir
        (((networkAfter chain node events).peer i).inbound added.kind) = .ok records ∧
        added.record ∈ records) ↔
      EachStep (Staging.exec added.kind.staging chainDataDir) (Staging.Clean added.kind.staging)
        Staging.start (appendsOf chain node added.kind i events) := by
  rw [networkAfter_inbound events i added.kind chainDataDir, ← Staging.reads_iff hback]
  constructor
  · rintro ⟨records, hread, -⟩
    exact ⟨records, hread⟩
  · rintro ⟨records, hread⟩
    refine ⟨records, hread, (Staging.read_run hback hread).1.subset ?_⟩
    exact Staging.mem_returned.mpr ⟨_, happended, rfl,
      ⟨hvalid, hworks.1, hworks.2.1, hworks.2.2.1⟩, hworks.2.2.2⟩

/-- A publication that can be staged lands. -/
theorem lands_deliver (hfresh : ∀ i, ∃ dir ledger payments, node i = Node.fresh dir ledger payments)
    (hreads : ReadsBack chain events) {i j : ι} {position : Nat} {message : Message ι}
    {publication : Publication} {now : Result UInt64} {openMarket : Result Unit} (append : AppendEnv)
    (hpublish : Occurs (Publishes chain node j publication) events)
    (hstageable : Stageable chain node events i j publication now openMarket)
    (hmessage : (networkAfter chain node events).wire[position]? = some message)
    (htopic : message.topic = brecciaTailTopic (chain j))
    (hcontent : message.content = publication.content (chain j)) :
    ∃ receivedAt, now = .ok receivedAt ∧ Lands chain node events position i now openMarket append
      (publication.record receivedAt (publication.frame (chain j))) := by
  obtain ⟨frame, other, receivedAt, htopic', haccepted⟩ :=
    (accepted_iff hfresh hreads append hpublish).mpr hstageable
  obtain ⟨rfl, rfl⟩ := hreads.accepted hpublish haccepted
  rw [← htopic] at htopic'
  rw [← hcontent] at haccepted
  refine ⟨receivedAt, haccepted.now, ?_, ?_, ?_⟩
  · rw [networkAfter_deliver hmessage]
    exact Network.receive_accepted chain _ htopic' haccepted
  · refine (Staging.append_spec _ _ _ _ _).2.trans ?_
    exact ⟨fun h => ⟨h.1.2.1, h.1.2.2.1, h.1.2.2.2, h.2⟩,
      fun h => ⟨⟨haccepted.binds.validate _ _, h.1, h.2.1, h.2.2.1⟩, h.2.2.2⟩⟩
  · intro hworks later fromStr chainDataDir hback
    refine reads_appended_iff (mem_appendsOf.mpr ?_) (haccepted.binds.validate _ _) hworks hback
    exact ⟨events, _, List.prefix_append .., (Network.mem_appended chain).mpr
      ⟨position, now, openMarket, message, rfl, hmessage, htopic', _, _, _, haccepted, rfl⟩⟩

/-- In every run the messages of the peers are delivered so, in any order and any number of times. -/
theorem published_delivered (dir : ι → DataDir) (ledger : ι → MicroPaymentLedger)
    (payments : ι → List PaymentDetails) (events : List (NetworkEvent ι))
    (hreads : ReadsBack chain events) {position : Nat} {message : Message ι} {j : ι}
    (hmessage : (networkAfter chain (freshNodes dir ledger payments) events).wire[position]? =
      some message) (hsender : message.sender = some j) (i : ι) (now : Result UInt64)
    (openMarket : Result Unit) (append : AppendEnv) :
    Delivers chain (freshNodes dir ledger payments) events position i j now openMarket append := by
  have hfresh : ∀ i, ∃ d l p, freshNodes dir ledger payments i = Node.fresh d l p :=
    fun i => ⟨dir i, ledger i, payments i, rfl⟩
  generalize freshNodes dir ledger payments = node at hfresh hmessage ⊢
  have hwire := wireFrom_networkAfter hfresh events message (List.mem_of_getElem? hmessage)
  unfold WireFrom at hwire
  rw [hsender] at hwire
  obtain ⟨publication, htopic, hcontent, hpublish, -⟩ := hwire
  refine ⟨publication, hpublish, fun hstageable => ?_, fun hnot => ?_⟩
  · exact lands_deliver hfresh hreads append hpublish hstageable hmessage htopic hcontent
  · rw [networkAfter_deliver hmessage]
    refine Network.receive_refused chain _ i message _ ?_
    rintro ⟨frame, other, receivedAt, htopic', haccepted⟩
    rw [htopic] at htopic'
    rw [hcontent] at haccepted
    exact hnot ((accepted_iff hfresh hreads append hpublish).mp
      ⟨frame, other, receivedAt, htopic', haccepted⟩)

end

/-! ### Two peers -/

section

attribute [local instance] exampleCodec Format.sha256Digests Format.sha256Codec sampleJson

/-- The tail of an attested commitment. -/
def gossipedTail : Publication :=
  .tail ⟨exampleRoot, commitmentDigest exampleRoot, [0], some 800000, none, none⟩

/-- A parser that knows the frame and the payload of that tail. -/
@[reducible]
def gossipedJson : LtpJson where
  decodeFrame bytes :=
    if bytes = gossipedTail.content .regtest then .ok (gossipedTail.frame .regtest)
    else .error "expected value"
  decodeBrecciaTail bytes :=
    if bytes = gossipedTail.payload then
      .ok ⟨exampleRoot, commitmentDigest exampleRoot, [0], some 800000, none, none⟩
    else .error "expected value"
  decodePaymentProof _ := .error "expected value"
  decodeBaoChallenge _ := .error "expected value"

attribute [local instance] gossipedJson

def twoChains : Bool → LtpChain := fun _ => .regtest

/-- One of two peers publishes the tail. -/
def gossipedEvents : List (NetworkEvent Bool) := [.publish false gossipedTail (.ok ()) (.ok ())]

theorem readsBack_gossiped {events : List (NetworkEvent Bool)}
    (h : ∀ j publication openMarket broadcast, .publish j publication openMarket broadcast ∈ events →
      publication = gossipedTail) : ReadsBack twoChains events := by
  intro j publication openMarket broadcast hmem
  obtain rfl := h j publication openMarket broadcast hmem
  exact ⟨if_pos rfl, if_pos rfl⟩

theorem readsBack_gossipedEvents : ReadsBack twoChains gossipedEvents := by
  refine readsBack_gossiped fun j publication openMarket broadcast hmem => ?_
  rw [gossipedEvents, List.mem_singleton] at hmem
  cases hmem
  rfl

/-- The record that the other peer stages. -/
def gossipedRecord : InboundTailRecord where
  receivedAt := 5
  frame := gossipedTail.frame (twoChains false)
  tail := ⟨exampleRoot, commitmentDigest exampleRoot, [0], some 800000, none, none⟩

/-- And then the tail arrives at the other peer. -/
def arrivedEvents : List (NetworkEvent Bool) :=
  gossipedEvents ++ [.deliver true 0 (.ok 5) (.ok ()) (Staging.appending none)]

/-- The two peers before any of their calls. -/
def gossipNodes : Bool → Node := freshNodes (fun _ => Commit.freshDir) (fun _ => sampleLedger) fun _ => []

theorem gossipNodes_fresh (i : Bool) : ∃ dir ledger payments, gossipNodes i =
    Node.fresh dir ledger payments :=
  ⟨Commit.freshDir, sampleLedger, [], rfl⟩

theorem publishes_gossipedTail :
    Occurs (Publishes twoChains gossipNodes false gossipedTail) gossipedEvents :=
  ⟨[], _, List.prefix_rfl, .ok (), .ok (), _, rfl, rfl⟩

theorem stageable_gossipedTail :
    Stageable twoChains gossipNodes gossipedEvents true false gossipedTail (.ok 5) (.ok ()) :=
  ⟨rfl, rfl, ⟨5, rfl⟩, False.elim⟩

theorem wire_gossipedEvents :
    (networkAfter twoChains gossipNodes gossipedEvents).wire[0]? =
      some ⟨some false, brecciaTailTopic (twoChains false), gossipedTail.content (twoChains false)⟩ := by
  have hpublish : publish ((Network.fresh gossipNodes).peer false).node (twoChains false) gossipedTail
      (.ok ()) (.ok ()) = .ok (gossipedTail.content (twoChains false)) :=
    bind_eq_ok.mpr ⟨(), rfl, bind_eq_ok.mpr ⟨(), rfl, rfl⟩⟩
  simp only [networkAfter, gossipedEvents, run, List.foldl_cons, List.foldl_nil, Network.exec, hpublish]
  rfl

theorem appendsOf_arrivedEvents : appendsOf twoChains gossipNodes .tails true arrivedEvents =
    [(gossipedRecord, Staging.appending none)] := by
  obtain ⟨frame, publication, receivedAt, -, haccepted⟩ := (accepted_iff gossipNodes_fresh
    readsBack_gossipedEvents (Staging.appending none) publishes_gossipedTail).mpr stageable_gossipedTail
  obtain ⟨rfl, rfl⟩ := readsBack_gossipedEvents.accepted publishes_gossipedTail haccepted
  have hcheck := checkInboundMessage_eq_ok.mpr ⟨_, _, _, haccepted, rfl⟩
  cases haccepted.now
  rw [show gossipedTail.record 5 (gossipedTail.frame (twoChains false)) = ⟨.tails, gossipedRecord⟩
    from rfl] at hcheck
  have happended : (run (Network.exec twoChains) (Network.fresh gossipNodes) gossipedEvents).appended
      twoChains true (.deliver true 0 (.ok 5) (.ok ()) (Staging.appending none)) =
      [(⟨.tails, gossipedRecord⟩, Staging.appending none)] := by
    refine Network.appended_of_checked twoChains wire_gossipedEvents rfl ?_
    dsimp only
    exact hcheck
  rw [appendsOf, arrivedEvents, emitted_append, emitted, emitted, happended]
  rfl

theorem eachStep_gossipedRecord : EachStep (Staging.exec inboundTails "/data")
    (Staging.Clean inboundTails) Staging.start [(gossipedRecord, Staging.appending none)] := by
  refine eachStep_cons.mpr ⟨⟨?_, fun htorn => ?_⟩, eachStep_nil⟩
  · rintro ⟨byte, hlast, -⟩
    cases hlast
  · cases htorn.2.1

/-- The other peer has staged the tail. -/
theorem staged_from_published_example :
    Sourced twoChains gossipNodes arrivedEvents true ⟨.tails, gossipedRecord⟩ := by
  refine (staged_from_published _ _ _ arrivedEvents (readsBack_gossiped ?_) true .tails).1
    (gossipedRecord, Staging.appending none) ?_
  · intro j publication openMarket broadcast hmem
    simp only [arrivedEvents, gossipedEvents, List.cons_append, List.nil_append, List.mem_cons,
      List.not_mem_nil, or_false, reduceCtorEq] at hmem
    cases hmem
    rfl
  · exact appendsOf_arrivedEvents ▸ List.mem_singleton_self _

/-- And it reads the tail back. -/
theorem published_delivered_example :
    ∃ records, inboundTails.read (Staging.readOnly inboundTails gossipedRecord) "/data"
        (((networkAfter twoChains gossipNodes arrivedEvents).peer true).inbound .tails) = .ok records ∧
      gossipedRecord ∈ records := by
  have hdelivers : Delivers twoChains gossipNodes gossipedEvents 0 true false (.ok 5) (.ok ())
      (Staging.appending none) :=
    published_delivered _ _ _ _ readsBack_gossipedEvents wire_gossipedEvents rfl _ _ _ _
  obtain ⟨publication, ⟨front, event, hwithin, openMarket, broadcast, content, rfl, -⟩, hlands, -⟩ :=
    hdelivers
  obtain rfl : publication = gossipedTail := by
    have hmem := hwithin.subset (List.mem_append_right _ (List.mem_singleton_self _))
    rw [gossipedEvents, List.mem_singleton] at hmem
    cases hmem
    rfl
  obtain ⟨receivedAt, hnow, hland⟩ := hlands stageable_gossipedTail
  cases hnow
  rw [show gossipedTail.record 5 (gossipedTail.frame (twoChains false)) = ⟨.tails, gossipedRecord⟩
    from rfl] at hland
  have hback : Staging.ReadsBack inboundTails (Staging.readOnly inboundTails gossipedRecord)
      (appendsOf twoChains gossipNodes .tails true arrivedEvents) := by
    rw [appendsOf_arrivedEvents]
    exact Staging.readsBack_readOnly fun call hcall => by rw [List.mem_singleton.mp hcall]
  have hkeeps := hland.keeps ⟨rfl, rfl, rfl, rfl⟩ [] (Staging.readOnly inboundTails gossipedRecord)
    "/data"
  rw [List.append_nil, show gossipedEvents ++ [.deliver true 0 (.ok 5) (.ok ())
    (Staging.appending none)] = arrivedEvents from rfl] at hkeeps
  dsimp only [InboundKind.staging] at hkeeps
  refine (hkeeps hback).mpr ?_
  rw [appendsOf_arrivedEvents]
  exact eachStep_gossipedRecord

end

end Lord.Ltp
