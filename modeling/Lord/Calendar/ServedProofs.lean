import Lord.Calendar.AnchorSearch
import Lord.Calendar.ConfirmedProof
import Lord.Calendar.KnownDigests
import Lord.Calendar.StoredProofs

/-! The confirmed proofs that the calendar serves, over the changes of the best chain: a stored proof
attests the block that its anchor was finalized from, and nothing looks at it again. -/

namespace Lord.Calendar

open Ots Bitcoin Commit Runs

/-- The headers of a best chain. -/
def headersOf (chain : List Block) : BlockHeaderSource :=
  ⟨fun height => .ok (chain[height.toNat]?.map fun block => block.header.merkleRoot)⟩

/-- The chain has the root of the block at its height. -/
def Built.InChain (built : Built) (chain : List Block) : Prop :=
  (headersOf chain).merkleRootAtHeight built.height = .ok (some built.block.header.merkleRoot)

section

variable [Digests] [OtsCodec]

/-- The proof is read, and confirmed against the headers. -/
def isConfirmed (source : BlockHeaderSource) (proof : Bytes) : Bool :=
  match OtsCodec.fromReader proof with
  | .ok file => (verifyTimestampAttestations file.timestamp source).isConfirmed
  | .error _ => false

/-- The proof is confirmed against headers with the root of its block. -/
def Built.Sound (built : Built) : Prop :=
  ∀ source : BlockHeaderSource,
    source.merkleRootAtHeight built.height = .ok (some built.block.header.merkleRoot) →
      isConfirmed source built.proof

/-- The calendar beside bitcoind's best chain. -/
structure World where
  system : System
  chain : List Block
  /-- The best chain has not changed since the last tick began. -/
  steady : Bool
  /-- The last event ended a tick that returned Ok. -/
  returned : Bool
  /-- The proofs that the finalizations have built. -/
  built : List Built

inductive Event where
  | calendar (action : Action)
  | chain (best : List Block)

namespace World

def start (calendarDir uri : String) (files : CalendarFiles) (chain : List Block) : World :=
  ⟨.start calendarDir uri files, chain, false, false, []⟩

def exec (config : AnchorConfig) (w : World) : Event → World
  | .calendar action =>
    { w with
      system := w.system.step config action
      steady := w.steady || w.system.begins action
      returned := w.system.returnsOk config action
      built := w.system.built action ++ w.built }
  | .chain best => { w with chain := best, steady := false, returned := false }

/-- When a tick has returned Ok and the best chain has not changed since it began, the stored proofs
are confirmed against it. -/
def ServesConfirmed (w : World) : Prop :=
  w.returned → w.steady → ∀ proof ∈ w.system.inner.state.store.proofs.values,
    isConfirmed (headersOf w.chain) proof

end World

/-! ### What a settled anchor builds -/

/-- The client answers with the blocks of the best chain. -/
def Serves (client : BitcoinClient) (chain : List Block) : Prop :=
  ∀ height block, blockAt client height = .ok block → chain[height]? = some block

/-- The transaction carries the merkle root, behind the coinbase of a valid block. -/
structure Anchors (merkleRoot : Bytes) (tx : Transaction) (block : Block) : Prop where
  spends : tx.input ≠ []
  carries : merkleRoot <:+: txSerializedForTxid tx
  notAlone : 2 ≤ block.txdata.length
  blockRoot : calculateRoot (blockTxids block) = some block.header.merkleRoot.val

/-- What is relied on of bitcoind and of the format of proofs when an anchor is settled: the search
goes through a client that serves the best chain, the anchor's id is the id of the transaction that
carries its root, and its proofs are not too long to be read. -/
structure Relies (chain : List Block) (pending : PendingAnchor) (merkleRoot : Bytes)
    (env : SettleEnv) : Prop where
  searched : ∃ client, env.findConfirmedTx = findConfirmedTx client ∧ Serves client chain
  mined : ∀ block ∈ chain, ∀ tx ∈ block.txdata, parseTxid pending.txid = some tx.computeTxid →
    Anchors merkleRoot tx block
  readable : ∀ block ∈ chain, ∀ tx ∈ block.txdata, parseTxid pending.txid = some tx.computeTxid →
    ∀ index digest, pending.batch[index]? = some digest →
      Readable (proofOps digest.val merkleRoot (pending.batch.map Subtype.val) index tx block)

/-- When the paths through the batch reach its root, there is one digest in it and one other
transaction in the block, or the operations of every digest reach the root of the block. -/
def AllReach (batch : List Bytes32) (merkleRoot : Bytes) (tx : Transaction) (block : Block) : Prop :=
  (∀ index digest, batch[index]? = some digest →
    BatchReaches digest.val merkleRoot (batch.map Subtype.val) index) →
  (batch.length = 1 ∧ block.txdata.length = 2) ∨
    ∀ index digest, batch[index]? = some digest → Reaches batch merkleRoot tx block digest index

section

variable {pending : PendingAnchor} {merkleRoot : Bytes} {height : UInt32} {block : Block}
  {tx : Transaction} {proofs : List (Bytes32 × Bytes)}

theorem confirmedProofs_mem
    (h : confirmedProofs pending merkleRoot height block tx = .ok proofs) {entry : Bytes32 × Bytes}
    (hentry : entry ∈ proofs) : ∃ index, pending.batch[index]? = some entry.1 ∧
      bitcoinConfirmedProofBytes entry.1.val merkleRoot (pending.batch.map Subtype.val) index tx
        block height = .ok entry.2 := by
  obtain ⟨⟨digest, index⟩, hindex, hbuild⟩ := mem_of_mapM_ok h hentry
  obtain ⟨proof, hproof, heq⟩ := bind_eq_ok.mp hbuild
  cases heq
  exact ⟨index, List.mem_zipIdx_iff_getElem?.mp hindex, Result.context_eq_ok.mp hproof⟩

/-- The proofs are built only when the paths through the batch reach its root. -/
theorem confirmedProofs_reach
    (h : confirmedProofs pending merkleRoot height block tx = .ok proofs) {index : Nat}
    {digest : Bytes32} (hindex : pending.batch[index]? = some digest) :
    BatchReaches digest.val merkleRoot (pending.batch.map Subtype.val) index := by
  have hentry : (digest, index) ∈ pending.batch.zipIdx := List.mem_zipIdx_iff_getElem?.mpr hindex
  obtain ⟨entry, hbuild⟩ := mapM_ok_mem h hentry
  obtain ⟨proof, hproof, -⟩ := bind_eq_ok.mp hbuild
  obtain ⟨txidStep, -, hproof⟩ := bind_eq_ok.mp (Result.context_eq_ok.mp hproof)
  obtain ⟨firstStep, hfirst, -⟩ := bind_eq_ok.mp hproof
  refine batchReaches_of_stepsToTxid ?_ hfirst
  rw [List.length_map]
  exact (List.getElem?_eq_some_iff.mp hindex).1

/-- The proofs of a settled anchor attest a block of the best chain. -/
theorem builtProofs_sound [LawfulOtsCodec] {chain : List Block} {env : SettleEnv}
    (hroot : otsMerkleRoot (pending.batch.map Subtype.val) = some merkleRoot)
    (hfiled : pending.merkleRoot = Hex.encode merkleRoot)
    (hrelies : Relies chain pending merkleRoot env)
    (hreach : ∀ height block tx, env.findConfirmedTx pending.txid = .ok (some (height, block, tx)) →
      AllReach pending.batch merkleRoot tx block)
    {built : Built} (hbuilt : built ∈ (builtProofs pending env).toOption.getD []) :
    built.InChain chain ∧ built.Sound := by
  cases hlist : builtProofs pending env with
  | error err =>
    rw [hlist] at hbuilt
    cases hbuilt
  | ok list =>
    rw [hlist] at hbuilt
    change built ∈ list at hbuilt
    obtain ⟨found, hfound, hlist⟩ := bind_eq_ok.mp hlist
    cases found with
    | none =>
      cases hlist
      cases hbuilt
    | some found =>
      obtain ⟨height, block, tx⟩ := found
      obtain ⟨decoded, hdecoded, hlist⟩ := bind_eq_ok.mp hlist
      obtain ⟨proofs, hproofs, hlist⟩ := bind_eq_ok.mp hlist
      cases hlist
      obtain ⟨entry, hentry, rfl⟩ := List.mem_map.mp hbuilt
      rw [okOr_eq_ok, hfiled, Hex.decode_encode] at hdecoded
      cases hdecoded
      -- the block that the search found is the one of the chain
      obtain ⟨client, hsearch, hserves⟩ := hrelies.searched
      obtain ⟨hblock, hmem, hid⟩ := findConfirmedTx_found (hsearch ▸ hfound)
      have hat := hserves height.toNat block hblock
      have hchain := List.mem_of_getElem? hat
      have hanchors := hrelies.mined block hchain tx hmem hid
      obtain ⟨index, hindex, hproof⟩ := confirmedProofs_mem hproofs hentry
      refine ⟨?_, fun source hsource => ?_⟩
      · show Except.ok (chain[height.toNat]?.map fun block => block.header.merkleRoot) = _
        rw [hat]
        rfl
      have hanchored : Anchored source pending.batch merkleRoot tx block height :=
        ⟨hroot, hanchors.spends, hanchors.carries, hmem, hanchors.notAlone, hanchors.blockRoot,
          hsource⟩
      have hreaches : Reaches pending.batch merkleRoot tx block entry.1 index := by
        rcases hreach height block tx hfound fun _ _ h => confirmedProofs_reach hproofs h with
          ⟨hone, htwo⟩ | hall
        · exact hanchored.reaches hone htwo hindex
        · exact hall index entry.1 hindex
      have hreadable := hrelies.readable block hchain tx hmem hid index entry.1 hindex
      obtain ⟨proof, file, hwrite, hread, hverify⟩ :=
        (confirms_iff_reaches hanchored hindex hreadable).mpr hreaches
      rw [hproof] at hwrite
      cases hwrite
      rw [isConfirmed, hread]
      simp only [hverify, AttestationVerifyStatus.isConfirmed]

end

/-! ### Runs -/

namespace World

/-- The proof was built from a block that the best chain has. -/
def Backed (w : World) (proof : Bytes) : Prop :=
  ∃ built ∈ w.built, built.proof = proof ∧ built.InChain w.chain

/-- The stored proofs attest the blocks that they were built from, and while the best chain stays as it
was when a tick began, it has the blocks of the proofs that the tick has read. -/
structure Inv (w : World) : Prop where
  keeps : Keeps (fun proof => ∃ built ∈ w.built, built.proof = proof) w.system
  sound : ∀ built ∈ w.built, built.Sound
  snapshot : w.steady → ∀ snapshot, w.system.phase = .loaded snapshot → Stores w.Backed snapshot
  memory : w.steady → w.system.phase.ticking ∨ w.returned → Stores w.Backed w.system.inner.state

/-- What the run relies on when an anchor is settled. -/
def Honest (w : World) : Event → Prop
  | .calendar (.settle env) => ∀ pending merkleRoot,
    w.system.inner.state.store.pendingAnchor = some pending →
      otsMerkleRoot (pending.batch.map Subtype.val) = some merkleRoot →
        Relies w.chain pending merkleRoot env
  | _ => True

/-- The condition on an event: when a tick begins, the best chain has the merkle roots of the blocks
that the proofs on disk were built from; and the digests of an anchor that is settled all reach the root
of its block. -/
def KeepsConfirmed (w : World) : Event → Prop
  | .calendar (.load _) => w.system.phase = .idle → ∀ built ∈ w.built,
    built.proof ∈ (loadState w.system.inner.files).store.proofs.values → built.InChain w.chain
  | .calendar (.settle env) => ∀ pending merkleRoot height block tx,
    w.system.inner.state.store.pendingAnchor = some pending →
      otsMerkleRoot (pending.batch.map Subtype.val) = some merkleRoot →
        env.findConfirmedTx pending.txid = .ok (some (height, block, tx)) →
          AllReach pending.batch merkleRoot tx block
  | _ => True

variable {config : AnchorConfig} {w : World}

theorem Inv.built_sound [LawfulOtsCodec] (h : w.Inv) {action : Action}
    (hhonest : w.Honest (.calendar action)) (hkeeps : w.KeepsConfirmed (.calendar action))
    {built : Built} (hbuilt : built ∈ w.system.built action) :
    built.InChain w.chain ∧ built.Sound := by
  unfold System.built at hbuilt
  split at hbuilt
  · rename_i env pending hphase hpending
    obtain ⟨merkleRoot, hroot, hfiled⟩ := h.keeps.memory.pending pending hpending
    refine builtProofs_sound hroot hfiled (hhonest pending merkleRoot hpending hroot) ?_ hbuilt
    exact fun height block tx hfound =>
      hkeeps pending merkleRoot height block tx hpending hroot hfound
  · cases hbuilt

omit [Digests] [OtsCodec] in
/-- Outside of the first section of a tick, the best chain was already as the tick began. -/
theorem steady_of_phase {action : Action} {phase : Phase} (hphase : w.system.phase = phase)
    (hne : phase ≠ .idle) (h : w.steady || w.system.begins action) : w.steady := by
  cases hbegins : w.system.begins action with
  | false => simpa [hbegins] using h
  | true => exact absurd (hphase.symm.trans (System.begins_iff.mp hbegins).1) hne

/-- A section that leaves its tick under way, or ends it with Ok, works on proofs that the best chain
backs. -/
theorem Inv.source_backed (h : w.Inv) {action : Action}
    (hs : w.steady || w.system.begins action)
    (hended : (w.system.step config action).phase.ticking ∨ w.system.returnsOk config action) :
    Stores w.Backed (w.system.source action) := by
  have hunder : w.system.phase.ticking → w.system.source action = w.system.inner.state →
      Stores w.Backed (w.system.source action) := by
    intro hphase hsource
    have hne : w.system.phase ≠ .idle := by
      intro hidle
      rw [hidle] at hphase
      cases hphase
    rw [hsource]
    exact h.memory (steady_of_phase rfl hne hs) (.inl hphase)
  rcases hended with hnext | hreturned
  · rcases w.system.step_phase config action with hresult | hidle | ⟨hsame, -, hsource⟩
    · rcases System.result_cases hresult with ⟨-, heq⟩ | ⟨snapshot, hphase, hsource, -⟩ |
        ⟨⟨hphase, hsource, -⟩, -⟩
      · rw [heq] at hnext
        cases hnext
      · rw [hsource]
        exact h.snapshot (steady_of_phase hphase nofun hs) snapshot hphase
      · exact hunder hphase hsource
    · rw [hidle] at hnext
      cases hnext
    · exact hunder (hsame ▸ hnext) hsource
  · unfold System.returnsOk at hreturned
    split at hreturned
    · rename_i hresult
      rcases System.result_cases hresult with ⟨-, heq⟩ | ⟨_, -, -, heq⟩ | ⟨⟨hphase, hsource, -⟩, -⟩
      · cases heq
      · cases heq
      · exact hunder hphase hsource
    · cases hreturned

/-- The snapshot that a tick reads is backed, as the chain has the blocks of the proofs on disk. -/
theorem Inv.snapshot_backed (h : w.Inv) {action : Action}
    (hkeeps : w.KeepsConfirmed (.calendar action)) (hs : w.steady || w.system.begins action)
    {snapshot : CalendarState}
    (hloaded : (w.system.step config action).phase = .loaded snapshot) :
    Stores w.Backed snapshot := by
  rcases w.system.step_phase config action with hresult | hidle | ⟨hsame, -⟩
  · rw [hloaded] at hresult
    rcases System.result_cases hresult with ⟨hbegins, heq⟩ | ⟨_, -, -, heq⟩ | ⟨⟨-, -, hne⟩, -⟩
    · cases heq
      obtain ⟨hphase, read, rfl⟩ := System.begins_iff.mp hbegins
      refine ⟨fun proof hmem => ?_, h.keeps.disk.pending⟩
      obtain ⟨built, hbuilt, rfl⟩ := h.keeps.disk.proofs proof hmem
      exact ⟨built, hbuilt, rfl, hkeeps hphase built hbuilt hmem⟩
    · cases heq
    · exact absurd rfl (hne snapshot)
  · rw [hloaded] at hidle
    cases hidle
  · have hphase := hsame.symm.trans hloaded
    exact h.snapshot (steady_of_phase hphase nofun hs) snapshot hphase

theorem Inv.step [LawfulOtsCodec] (h : w.Inv) {event : Event} (hhonest : w.Honest event)
    (hkeeps : w.KeepsConfirmed event) : (w.exec config event).Inv := by
  cases event with
  | chain best => exact ⟨h.keeps, h.sound, nofun, nofun⟩
  | calendar action =>
    have hnew : ∀ built ∈ w.system.built action, built.InChain w.chain ∧ built.Sound :=
      fun built hmem => h.built_sound hhonest hkeeps hmem
    have hkept : ∀ proof, (∃ built ∈ w.built, built.proof = proof) →
        ∃ built ∈ w.system.built action ++ w.built, built.proof = proof :=
      fun _ ⟨built, hmem, hproof⟩ => ⟨built, List.mem_append_right _ hmem, hproof⟩
    have hbacked : ∀ proof, w.Backed proof → (w.exec config (.calendar action)).Backed proof :=
      fun _ ⟨built, hmem, hproof, hin⟩ => ⟨built, List.mem_append_right _ hmem, hproof, hin⟩
    refine ⟨?_, ?_, ?_, ?_⟩
    · exact (h.keeps.mono hkept).step fun built hmem => ⟨built, List.mem_append_left _ hmem, rfl⟩
    · intro built hmem
      rcases List.mem_append.mp hmem with hmem | hmem
      · exact (hnew built hmem).2
      · exact h.sound built hmem
    · exact fun hs snapshot hloaded => (h.snapshot_backed hkeeps hs hloaded).mono hbacked
    · intro hs hended
      have hsource := (h.source_backed hs hended).mono hbacked
      have hleaves := @System.step_leaves _ _ _ config w.system action hsource h.keeps.drained
        fun built hmem => ⟨built, List.mem_append_left _ hmem, rfl, (hnew built hmem).1⟩
      exact hleaves.memory

theorem Inv.servesConfirmed (h : w.Inv) : w.ServesConfirmed := by
  intro hreturned hsteady proof hmem
  obtain ⟨built, hbuilt, rfl, hin⟩ := (h.memory hsteady (.inr hreturned)).proofs proof hmem
  exact h.sound built hbuilt (headersOf w.chain) hin

/-- In a run from a calendar without proofs whose events meet the condition, the stored proofs are
confirmed whenever a tick has returned Ok on a best chain that has not changed since it began. -/
theorem proofs_confirmed [LawfulOtsCodec] {calendarDir uri : String} {files : CalendarFiles}
    {chain : List Block} {events : List Event}
    (hproofs : (loadState files).store.proofs.values = [])
    (hpending : (loadState files).store.pendingAnchor = none)
    (hhonest : EachStep (exec config) Honest (start calendarDir uri files chain) events)
    (h : EachStep (exec config) KeepsConfirmed (start calendarDir uri files chain) events) :
    Always (exec config) ServesConfirmed (start calendarDir uri files chain) events := by
  have hfresh : ∀ good, Stores good (loadState files) := by
    refine fun good => ⟨fun proof hmem => ?_, fun pending heq => ?_⟩
    · rw [hproofs] at hmem
      cases hmem
    · rw [hpending] at heq
      cases heq
  have hstart : (start calendarDir uri files chain).Inv :=
    ⟨⟨hfresh _, hfresh _, nofun, nofun⟩, nofun, nofun, nofun⟩
  have hboth : EachStep (exec config) (fun w event => w.Honest event ∧ w.KeepsConfirmed event)
      (start calendarDir uri files chain) events := fun front event hfront =>
    ⟨hhonest front event hfront, h front event hfront⟩
  have hkeep : ∀ w, ∀ event ∈ events, Inv w → w.Honest event ∧ w.KeepsConfirmed event →
      (exec config w event).Inv := fun w event _ hw ⟨hhonest, hkeeps⟩ => hw.step hhonest hkeeps
  have hinv := always_of_eachStep hkeep hstart hboth
  exact fun front hfront => (hinv front hfront).servesConfirmed

end World

end

/-! ### A reorg behind a finalized anchor -/

section

attribute [local instance] Format.sha256Digests Format.sha256Codec

/-- What bitcoind answers over a chain, with this answer of its wallet. -/
def chainClient [Digests] (chain : List Block) (wallet : Result WalletTransaction) :
    BitcoinClient where
  getTransaction _ := wallet
  getBlockHash height :=
    okOr (chain[height]?.map fun block => block.header.blockHash) "Block height out of range"
  getBlock blockHash :=
    okOr (chain.find? fun block => block.header.blockHash = blockHash) "Block not found"
  getBlockCount := .ok (chain.length - 1)

theorem serves_chainClient [Digests] {chain : List Block} (wallet : Result WalletTransaction)
    (hnodup : (chain.map fun block => block.header.blockHash).Nodup) :
    Serves (chainClient chain wallet) chain := by
  intro height block hat
  obtain ⟨blockHash, hhash, hblock⟩ := bind_eq_ok.mp hat
  obtain ⟨first, hfirst, rfl⟩ := Option.map_eq_some_iff.mp (okOr_eq_ok.mp (Result.context_eq_ok.mp hhash))
  have hfind := okOr_eq_ok.mp (Result.context_eq_ok.mp hblock)
  have hsame : block.header.blockHash = first.header.blockHash := by
    simpa using List.find?_some hfind
  have hinj := List.inj_on_of_nodup_map hnodup (List.mem_of_find?_eq_some hfind)
    (List.mem_of_getElem? hfirst) hsame
  rw [hinj, hfirst]

/-- A block with nothing but a coinbase. -/
def emptyBlock (nonce : UInt32) : Block :=
  ⟨⟨1, repeatedDigest 0, (exampleAnchorTx []).computeTxid, 0, 0, nonce⟩, [exampleAnchorTx []]⟩

/-- The chain whose second block has the anchor transaction of the digest. -/
def anchoredChain : List Block := [emptyBlock 0, exampleAnchorBlock exampleDigest.val]

def exampleTxid : String :=
  Hex.encode (exampleAnchorTx exampleDigest.val).computeTxid.val.reverse

def examplePending : PendingAnchor :=
  ⟨exampleTxid, Hex.encode exampleDigest.val, [exampleDigest], 1000⟩

def exampleClient : BitcoinClient := chainClient anchoredChain (.ok ⟨1, some 1⟩)

/-- A submission, a tick that broadcasts, the block of the anchor, and a tick that finalizes it. -/
def finalizingRun : List Event :=
  .calendar exampleSubmit :: (exampleTick (.ok exampleTxid)).map .calendar ++
    .chain anchoredChain :: [Action.load (.ok ()), .install,
      .settle ⟨findConfirmedTx exampleClient, 1000, .ok 1000, .ok ()⟩].map .calendar

/-- The block of the anchor is reorganized away, and a tick has nothing to do. -/
def reorgedRun : List Event :=
  finalizingRun ++ .chain [emptyBlock 0, emptyBlock 1] ::
    ((exampleTick (.ok exampleTxid)).take 4).map .calendar

instance (w : World) : Decidable w.ServesConfirmed :=
  inferInstanceAs (Decidable (_ → _ → ∀ _ ∈ _, _))

/-- A tick returns Ok after the reorg, and the proof that is stored is not confirmed. -/
theorem not_proofs_confirmed : ¬Always (World.exec regtestDefaults) World.ServesConfirmed
    (.start "/data/calendar" "http://127.0.0.1:14788" ⟨none, none, none⟩ [emptyBlock 0])
    reorgedRun := by
  intro halways
  have hlast := halways _ (List.prefix_refl _)
  revert hlast
  decide +kernel

/-- The anchor transaction is the only one of its id in the chain. -/
theorem anchoredChain_mined {block : Block} (hblock : block ∈ anchoredChain) {tx : Transaction}
    (htx : tx ∈ block.txdata) (hid : parseTxid exampleTxid = some tx.computeTxid) :
    block = exampleAnchorBlock exampleDigest.val ∧ tx = exampleAnchorTx exampleDigest.val := by
  have hcoinbase : parseTxid exampleTxid ≠ some (exampleAnchorTx []).computeTxid := by
    decide +kernel
  rcases List.mem_pair.mp hblock with rfl | rfl
  · obtain rfl : tx = exampleAnchorTx [] := by simpa [emptyBlock] using htx
    exact absurd hid hcoinbase
  · rcases List.mem_pair.mp htx with rfl | rfl
    · exact absurd hid hcoinbase
    · exact ⟨rfl, rfl⟩

theorem exampleClient_serves : Serves exampleClient anchoredChain :=
  serves_chainClient _ (by decide +kernel)

theorem anchors_example :
    Anchors exampleDigest.val (exampleAnchorTx exampleDigest.val)
      (exampleAnchorBlock exampleDigest.val) := by
  have hanchored := @anchored_example [exampleDigest] exampleDigest.val
    (by simp [otsMerkleRoot, otsRootLoop])
  exact ⟨hanchored.spends, hanchored.carries, hanchored.notAlone, hanchored.blockRoot⟩

theorem readable_example : Readable (proofOps exampleDigest.val exampleDigest.val
    ([exampleDigest].map Subtype.val) 0 (exampleAnchorTx exampleDigest.val)
    (exampleAnchorBlock exampleDigest.val)) := by
  rw [proofOps, blockPath_example (by decide +kernel)]
  decide +kernel

theorem relies_example : Relies anchoredChain examplePending exampleDigest.val
    ⟨findConfirmedTx exampleClient, 1000, .ok 1000, .ok ()⟩ := by
  refine ⟨⟨exampleClient, rfl, exampleClient_serves⟩, ?_, ?_⟩
  · intro block hblock tx htx hid
    obtain ⟨heq, htxeq⟩ := anchoredChain_mined hblock htx hid
    rw [heq, htxeq]
    exact anchors_example
  · intro block hblock tx htx hid index digest hdigest
    obtain ⟨heq, htxeq⟩ := anchoredChain_mined hblock htx hid
    rw [heq, htxeq]
    cases index with
    | zero =>
      cases hdigest
      exact readable_example
    | succ index => cases hdigest

/-- Until a reorg, the proof is confirmed. -/
theorem proofs_confirmed_finalized :
    Always (World.exec regtestDefaults) World.ServesConfirmed
      (.start "/data/calendar" "http://127.0.0.1:14788" ⟨none, none, none⟩ [emptyBlock 0])
      finalizingRun := by
  have := Format.codec_lawful
  refine World.proofs_confirmed rfl rfl ?_ ?_
  · simp only [finalizingRun, exampleTick, List.map_cons, List.map_nil, List.cons_append,
      List.nil_append, eachStep_cons]
    refine ⟨trivial, trivial, trivial, ?_, trivial, trivial, trivial, trivial, trivial, trivial, ?_,
      eachStep_nil⟩
    · rintro pending merkleRoot ⟨⟩
    · intro pending merkleRoot hpending hroot
      obtain rfl : examplePending = pending :=
        Option.some.inj (Eq.trans (by decide +kernel) hpending)
      obtain rfl : exampleDigest.val = merkleRoot :=
        Option.some.inj (Eq.trans (by decide +kernel) hroot)
      exact relies_example
  · simp only [finalizingRun, exampleTick, List.map_cons, List.map_nil, List.cons_append,
      List.nil_append, eachStep_cons]
    refine ⟨trivial, ?_, trivial, ?_, trivial, trivial, trivial, trivial, ?_, trivial, ?_,
      eachStep_nil⟩
    · rintro - built ⟨⟩
    · rintro pending merkleRoot height block tx ⟨⟩
    · rintro - built ⟨⟩
    · intro pending merkleRoot height block tx hpending hroot hfound
      obtain rfl : examplePending = pending :=
        Option.some.inj (Eq.trans (by decide +kernel) hpending)
      have hsearch : findConfirmedTx exampleClient exampleTxid = .ok (some (height, block, tx)) :=
        hfound
      obtain ⟨hblock, hmem, hid⟩ := findConfirmedTx_found hsearch
      have hat := exampleClient_serves height.toNat block hblock
      obtain ⟨heq, -⟩ := anchoredChain_mined (List.mem_of_getElem? hat) hmem hid
      rw [heq]
      exact fun _ => .inl ⟨rfl, rfl⟩

end

end Lord.Calendar
