import Lord.Index.HeaderChain
import Lord.Ots.Format

/-! The index beside the best chain of the node: what an update that returns without an error has
compared, and what it has not. -/

namespace Lord.Index

open Bitcoin Ots HashChain Runs

section

variable [Digests]

/-- A chain of headers, each of which names the hash of the one below it, among these. -/
structure HeaderChain (members : Set Header) (headers : List Header) : Prop where
  linked : Linked Header.blockHash Header.prevBlockhash headers
  mem : ∀ header ∈ headers, header ∈ members

def chainHeaders (chain : List BlockData) : List Header := chain.map BlockData.header

/-- The headers are those of the chain, up to the lower of the two tips. -/
def OnChain (headers : List Header) (chain : List BlockData) : Prop :=
  ∀ (height : Nat) (header : Header) (block : BlockData), headers[height]? = some header →
    chain[height]? = some block → header = block.header

/-- What a pass has of the best chain since it did not change. -/
structure Synced (chain : List BlockData) (pass : Pass) : Prop where
  channel : chainHeaders pass.channel =
    ((chainHeaders chain).drop pass.height).take pass.channel.length
  fetchHeight : pass.fetching = true → pass.fetchHeight = pass.height + pass.channel.length
  compared : pass.startingIndexHeight < pass.height ∨ pass.startingIndexHeight = chain.length →
    OnChain pass.index.tables.headers chain

structure PassSound (members : Set Header) (pass : Pass) : Prop where
  headers : HeaderChain members pass.index.tables.headers
  channel : ∀ block ∈ pass.channel, block.header ∈ members

structure DirSound (members : Set Header) (dir : IndexDir) : Prop where
  headers : HeaderChain members dir.store.tables.headers
  snapshots : ∀ entry ∈ dir.savepoints.entries, HeaderChain members entry.2.tables.headers

structure Machine.Sound (members : Set Header) (m : Machine) : Prop where
  dir : DirSound members m.dir
  bestChain : HeaderChain members (chainHeaders m.bestChain)
  genesis : m.bestChain ≠ []
  pass : ∀ pass, m.phase = .running pass →
    PassSound members pass ∧ (m.changed = false → Synced m.bestChain pass)

/-- A best chain that a node may have. -/
def ValidAction (members : Set Header) : Action → Prop
  | .bestChain chain => HeaderChain members (chainHeaders chain) ∧ chain ≠ []
  | _ => True

variable {members : Set Header} {config : IndexConfig} {settings : UpdaterSettings} {m : Machine}

/-! ### Comparisons -/

omit [Digests] in
theorem onChain_of_take_eq {headers : List Header} {chain : List BlockData}
    (h : headers = (chainHeaders chain).take headers.length) : OnChain headers chain := by
  intro height header block hheader hblock
  obtain ⟨hlt, -⟩ := List.getElem?_eq_some_iff.mp hheader
  rw [h, List.getElem?_take_of_lt hlt, chainHeaders, List.getElem?_map, hblock] at hheader
  exact (Option.some.inj hheader).symm

/-- An index whose tip has the hash of the block at its height is a part of the chain. -/
theorem take_eq_of_tip (hinj : Set.InjOn Header.blockHash members) {headers : List Header}
    {chain : List BlockData} (hheaders : HeaderChain members headers)
    (hchain : HeaderChain members (chainHeaders chain)) {last : Header} {block : BlockData}
    (hlast : headers.getLast? = some last) (hblock : chain[headers.length - 1]? = some block)
    (hhash : last.blockHash = block.header.blockHash) :
    headers = (chainHeaders chain).take headers.length := by
  rw [List.getLast?_eq_getElem?] at hlast
  obtain ⟨hlt, -⟩ := List.getElem?_eq_some_iff.mp hlast
  have hblock' : (chainHeaders chain)[headers.length - 1]? = some block.header := by
    rw [chainHeaders, List.getElem?_map, hblock]
    rfl
  have htake := take_eq_of_hash_eq hinj hheaders.linked hchain.linked hheaders.mem hchain.mem hlast
    hblock' hhash
  rw [show headers.length - 1 + 1 = headers.length by omega, List.take_length] at htake
  exact htake

/-- A block of the chain at the height of the index is accepted only on top of the blocks below it. -/
theorem take_eq_of_accepted (hinj : Set.InjOn Header.blockHash members) {tables : Tables}
    {chain : List BlockData} (hheaders : HeaderChain members tables.headers)
    (hchain : HeaderChain members (chainHeaders chain)) {blockHash : BlockHashes}
    {header : Header} (hblock : (chainHeaders chain)[tables.headers.length]? = some header)
    (haccepted : detectReorg settings blockHash tables header.prevBlockhash tables.headers.length =
      .ok ()) :
    tables.headers ++ [header] = (chainHeaders chain).take (tables.headers.length + 1) := by
  have hbelow : tables.headers = (chainHeaders chain).take tables.headers.length := by
    cases hlast : tables.headers.getLast? with
    | none =>
      rw [List.getLast?_eq_none_iff] at hlast
      rw [hlast]
      rfl
    | some last =>
      have hprev := detectReorg_eq_ok haccepted hlast
      have hpos : 0 < tables.headers.length := by
        rw [List.length_pos_iff]
        intro hnil
        rw [hnil] at hlast
        cases hlast
      obtain ⟨hlt, -⟩ := List.getElem?_eq_some_iff.mp hblock
      have hget := List.getElem?_eq_getElem
        (show tables.headers.length - 1 < (chainHeaders chain).length by omega)
      have hlink := linked_iff.mp hchain.linked _ _ _ hget
        (by rw [show tables.headers.length - 1 + 1 = tables.headers.length by omega]; exact hblock)
      rw [List.getLast?_eq_getElem?] at hlast
      have htake := take_eq_of_hash_eq hinj hheaders.linked hchain.linked hheaders.mem hchain.mem
        hlast hget (hprev.symm.trans hlink)
      rw [show tables.headers.length - 1 + 1 = tables.headers.length by omega,
        List.take_length] at htake
      exact htake
  rw [List.take_add_one, hblock, ← hbelow]
  rfl

/-! ### Steps -/

theorem DirSound.updated {dir dir' : IndexDir} {tables : Tables} {height : Nat}
    (h : DirSound members dir) (htables : HeaderChain members tables.headers)
    (hupdated : SavepointsUpdated { dir with store := { dir.store with tables } } height dir') :
    DirSound members dir' := by
  refine ⟨by rw [hupdated.tables]; exact htables, fun entry hentry => ?_⟩
  rcases hupdated.entries entry hentry with hold | rfl
  · exact h.snapshots entry hold
  · exact htables

/-- No pass runs after one that failed. -/
theorem Machine.Sound.failed {dir : IndexDir} (h : m.Sound members) (hdir : DirSound members dir)
    (err : UpdateError) : (Machine.failed { m with dir } err).Sound members := by
  cases err <;> exact ⟨hdir, h.bestChain, h.genesis, nofun⟩

/-- An index as high as the node is compared with it. -/
theorem checkTip_eq_ok (hinj : Set.InjOn Header.blockHash members) {chain : List BlockData}
    {tables : Tables} {fault : Nat → Option Error} (hheaders : HeaderChain members tables.headers)
    (hchain : HeaderChain members (chainHeaders chain)) (hgenesis : chain ≠ [])
    (hheight : tables.headers.length = chain.length)
    (h : checkTip settings chain tables tables.headers.length fault = .ok ()) :
    OnChain tables.headers chain := by
  have hpos := List.length_pos_iff.mpr hgenesis
  obtain ⟨block, hblock⟩ : ∃ block, chain[chain.length - 1]? = some block :=
    ⟨_, List.getElem?_eq_getElem (by omega)⟩
  obtain ⟨last, hlast⟩ : ∃ last, tables.headers[chain.length - 1]? = some last :=
    ⟨_, List.getElem?_eq_getElem (by omega)⟩
  have hlast' : tables.headers.getLast? = some last := by
    rw [List.getLast?_eq_getElem?, hheight, hlast]
  have htip : last.blockHash = block.header.blockHash := by
    unfold checkTip at h
    dsimp only at h
    rw [if_pos (by omega), nodeBlockHash] at h
    cases hfault : fault (chain.length - 1) with
    | some err =>
      rw [hfault] at h
      cases h
    | none =>
      rw [hfault, hblock] at h
      simp only [Option.map_some] at h
      split at h
      · rename_i heq
        rw [blockHashInTxn, hlast] at heq
        exact Option.some.inj heq
      · exact (detectReorg_eq_ok h hlast').symm
  refine onChain_of_take_eq (take_eq_of_tip hinj hheaders hchain hlast' ?_ htip)
  rw [hheight, hblock]

theorem Machine.Sound.start (hinj : Set.InjOn Header.blockHash members) (h : m.Sound members)
    {blockCount : Result Unit} {fault : Nat → Option Error} {pass : Pass}
    (hstart : startPass settings m.bestChain m.dir.store blockCount fault = .ok pass) :
    Machine.Sound members { m with phase := .running pass } := by
  unfold startPass at hstart
  split at hstart
  · cases hstart
  · split at hstart
    · cases hstart
    · rename_i hcheck
      cases hstart
      refine ⟨h.dir, h.bestChain, h.genesis, fun pass hpass => ?_⟩
      cases hpass
      refine ⟨⟨h.dir.headers, nofun⟩, fun _ => ⟨rfl, fun _ => rfl, ?_⟩⟩
      rintro (hlt | heq)
      · exact absurd hlt (lt_irrefl _)
      · exact checkTip_eq_ok hinj h.dir.headers h.bestChain h.genesis heq hcheck

theorem Machine.Sound.fetch (h : m.Sound members) {pass : Pass} (hphase : m.phase = .running pass)
    (givesUp : Bool) :
    Machine.Sound members
      { m with phase := .running (pass.fetch settings m.bestChain givesUp) } := by
  obtain ⟨hpass, hsynced⟩ := h.pass pass hphase
  refine ⟨h.dir, h.bestChain, h.genesis, fun pass' hpass' => ?_⟩
  cases hpass'
  unfold Pass.fetch
  split
  · exact ⟨hpass, hsynced⟩
  · rename_i hrunning
    split
    · exact ⟨{ hpass with }, fun hsame => ⟨(hsynced hsame).channel, nofun, (hsynced hsame).compared⟩⟩
    · split
      · exact ⟨{ hpass with }, fun hsame => ⟨(hsynced hsame).channel, nofun, (hsynced hsame).compared⟩⟩
      · rename_i block hblock
        -- the block of the channel has the header of the block of the chain
        generalize hfetched : (if settings.firstIndexHeight ≤ pass.fetchHeight then block
          else { block with txdata := [] }) = fetched
        have hheader : fetched.header = block.header := by
          rw [← hfetched]
          split <;> rfl
        have hget : (chainHeaders m.bestChain)[pass.fetchHeight]? = some fetched.header := by
          rw [chainHeaders, List.getElem?_map, hblock, hheader]
          rfl
        refine ⟨{ hpass with channel := fun b hb => ?_ }, fun hsame => ⟨?_, fun _ => ?_,
          (hsynced hsame).compared⟩⟩
        · rcases List.mem_append.mp hb with hb | hb
          · exact hpass.channel b hb
          · rw [List.mem_singleton.mp hb]
            exact h.bestChain.mem _ (List.mem_of_getElem? hget)
        · have hfetching : pass.fetching = true := by
            cases hf : pass.fetching with
            | true => rfl
            | false => simp [hf] at hrunning
          have hnext := (hsynced hsame).fetchHeight hfetching
          have hchannel := (hsynced hsame).channel
          rw [hnext] at hget
          simp only [chainHeaders, List.map_append, List.length_append, List.length_singleton]
            at hchannel hget ⊢
          rw [hchannel, List.take_add_one, List.getElem?_drop, hget]
          rfl
        · have hfetching : pass.fetching = true := by
            cases hf : pass.fetching with
            | true => rfl
            | false => simp [hf] at hrunning
          have hnext := (hsynced hsame).fetchHeight hfetching
          simp only [List.length_append, List.length_singleton]
          omega

theorem HeaderChain.concat {headers : List Header} {header : Header}
    (h : HeaderChain members headers) (hmem : header ∈ members)
    (hlast : ∀ last, headers.getLast? = some last → header.prevBlockhash = last.blockHash) :
    HeaderChain members (headers ++ [header]) := by
  refine ⟨h.linked.concat hlast, fun other hother => ?_⟩
  rcases List.mem_append.mp hother with hother | hother
  · exact h.mem other hother
  · rw [List.mem_singleton.mp hother]
    exact hmem

/-- The headers with a received one are a chain again. -/
theorem PassSound.accepted {store : Store} {pass : Pass} {block : BlockData}
    {blockHash : BlockHashes} (h : PassSound members pass) (hbegun : PassBegun store pass)
    (hmem : block.header ∈ members)
    (haccepted : detectReorg settings blockHash pass.index.tables block.header.prevBlockhash
      pass.height = .ok ()) :
    HeaderChain members (pass.index.tables.headers ++ [block.header]) := by
  rw [hbegun.height] at haccepted
  exact h.headers.concat hmem fun last hlast => detectReorg_eq_ok haccepted hlast

theorem Synced.received (hinj : Set.InjOn Header.blockHash members) {store : Store}
    {chain : List BlockData} {pass pass' : Pass} {block : BlockData} {rest : List BlockData}
    {blockHash : BlockHashes} (h : Synced chain pass) (hpass : PassSound members pass)
    (hbegun : PassBegun store pass) (hchain : HeaderChain members (chainHeaders chain))
    (hchannel : pass.channel = block :: rest)
    (haccepted : detectReorg settings blockHash pass.index.tables block.header.prevBlockhash
      pass.height = .ok ())
    (hreceived : Received { pass with channel := rest } block pass') : Synced chain pass' := by
  have hnext := h.channel
  rw [hchannel] at hnext
  simp only [chainHeaders, List.map_cons, List.length_cons] at hnext
  -- the block is that of the chain at the height of the pass
  have hget : (chainHeaders chain)[pass.height]? = some block.header := by
    have hhead := congrArg List.head? hnext
    rw [List.head?_cons, List.head?_eq_getElem?, List.getElem?_take_of_lt (by omega),
      List.getElem?_drop] at hhead
    exact hhead.symm
  have hrest : chainHeaders rest =
      ((chainHeaders chain).drop (pass.height + 1)).take rest.length := by
    obtain ⟨hlt, -⟩ := List.getElem?_eq_some_iff.mp hget
    simp only [chainHeaders] at hlt ⊢
    rw [List.drop_eq_getElem_cons hlt, List.take_succ_cons] at hnext
    exact (List.cons.inj hnext).2
  constructor
  · rcases hreceived.channel with ⟨hsame, -⟩ | ⟨hnil, -⟩
    · rw [hsame, hreceived.height]
      exact hrest
    · rw [hnil]
      rfl
  · intro hfetching
    rcases hreceived.channel with ⟨hsame, hfetch, hrunning⟩ | ⟨-, hclosed⟩
    · rw [hfetch, hsame, hreceived.height]
      have hlength := h.fetchHeight (by rw [← hfetching, hrunning])
      rw [hchannel, List.length_cons] at hlength
      simp only
      omega
    · rw [hclosed] at hfetching
      cases hfetching
  · intro _
    rw [hbegun.height] at hget haccepted
    have htake := take_eq_of_accepted hinj hpass.headers hchain hget haccepted
    refine onChain_of_take_eq ?_
    rw [hreceived.headers]
    simpa using htake

omit [Digests] in
theorem mem_channel_received {pass pass' : Pass} {block : BlockData} {rest : List BlockData}
    (hchannel : pass.channel = block :: rest)
    (hreceived : Received { pass with channel := rest } block pass') {other : BlockData}
    (h : other ∈ pass'.channel) : other ∈ pass.channel := by
  rcases hreceived.channel with ⟨hsame, -⟩ | ⟨hnil, -⟩
  · rw [hsame] at h
    rw [hchannel]
    exact List.mem_cons_of_mem _ h
  · rw [hnil] at h
    cases h

theorem Machine.Sound.receive (hinj : Set.InjOn Header.blockHash members) (h : m.Sound members)
    (hbegun : m.Begun) {pass : Pass} (hphase : m.phase = .running pass) (env : ReceiveEnv) :
    (m.step config settings (.receive env)).Sound members := by
  obtain ⟨hpass, hsynced⟩ := h.pass pass hphase
  simp only [Machine.step, hphase]
  cases hchannel : pass.channel with
  | nil => exact h
  | cons block rest =>
    have hmem : block.header ∈ members :=
      hpass.channel block (by rw [hchannel]; exact List.mem_cons_self)
    dsimp only
    rcases receiveBlock_cases config settings m.bestChain m.dir { pass with channel := rest } block env
      with ⟨hdir, hok⟩ | ⟨haccepted, tables, htables, hupdated, hok⟩
    · split
      · rename_i err dir' heq
        rw [heq] at hdir
        obtain rfl : dir' = m.dir := hdir
        exact h.failed h.dir err
      · rename_i pass' dir' heq
        rw [heq] at hdir hok
        obtain rfl : dir' = m.dir := hdir
        obtain ⟨haccepted, hreceived, -⟩ := hok pass' rfl
        have hheaders := hpass.accepted (hbegun pass hphase) hmem haccepted
        refine ⟨h.dir, h.bestChain, h.genesis, fun running hrunning => ?_⟩
        cases hrunning
        refine ⟨⟨by rwa [hreceived.headers], fun other hother => ?_⟩, fun hsame => ?_⟩
        · exact hpass.channel other (mem_channel_received hchannel hreceived hother)
        · exact (hsynced hsame).received hinj hpass (hbegun pass hphase) h.bestChain hchannel
            haccepted hreceived
    · have hheaders : HeaderChain members (pass.index.tables.headers ++ [block.header]) :=
        hpass.accepted (hbegun pass hphase) hmem haccepted
      have hdir := h.dir.updated (by rw [htables]; exact hheaders) (.of_eq hupdated)
      split
      · rename_i err dir' heq
        rw [heq] at hdir
        exact h.failed hdir err
      · rename_i pass' dir' heq
        rw [heq] at hdir hok
        obtain ⟨hreceived, -⟩ := hok pass' rfl
        refine ⟨hdir, h.bestChain, h.genesis, fun running hrunning => ?_⟩
        cases hrunning
        refine ⟨⟨by rwa [hreceived.headers], fun other hother => ?_⟩, fun hsame => ?_⟩
        · exact hpass.channel other (mem_channel_received hchannel hreceived hother)
        · exact (hsynced hsame).received hinj hpass (hbegun pass hphase) h.bestChain hchannel
            haccepted hreceived

theorem Machine.Sound.finish (h : m.Sound members) {pass : Pass}
    (hphase : m.phase = .running pass) (order : CacheOrder) (savepoint : SavepointEnv) :
    (m.step config settings (.finish order savepoint)).Sound members := by
  obtain ⟨hpass, -⟩ := h.pass pass hphase
  have hdir : DirSound members (finishPass config settings m.dir pass order savepoint).2 := by
    rcases finishPass_cases config settings m.dir pass order savepoint with
      ⟨hdir, -⟩ | ⟨-, tables, htables, hupdated⟩
    · rw [hdir]
      exact h.dir
    · exact h.dir.updated (by rw [htables]; exact hpass.headers) (.of_eq hupdated)
  simp only [Machine.step, hphase]
  split
  · split
    · rename_i heq
      rw [heq] at hdir
      exact h.failed hdir _
    · rename_i heq
      rw [heq] at hdir
      exact ⟨hdir, h.bestChain, h.genesis, by rintro _ ⟨⟩⟩
  · exact h

theorem Machine.Sound.recover (h : m.Sound members) {height depth : Nat}
    (hphase : m.phase = .reorged height depth) :
    (m.step config settings .recover).Sound members := by
  simp only [Machine.step, hphase]
  split
  · exact ⟨h.dir, h.bestChain, h.genesis, by rintro _ ⟨⟩⟩
  · rename_i dir' hdir
    obtain ⟨savepointHeight, snapshot, -, hmem, rfl⟩ := handleReorg_eq_ok hdir
    exact ⟨⟨h.dir.snapshots _ hmem, h.dir.snapshots⟩, h.bestChain, h.genesis, by rintro _ ⟨⟩⟩

/-- Every step keeps the chains of headers. -/
theorem Machine.Sound.step (hinj : Set.InjOn Header.blockHash members) (h : m.Sound members)
    (hbegun : m.Begun) {action : Action} (hvalid : ValidAction members action) :
    (m.step config settings action).Sound members := by
  cases action with
  | bestChain chain =>
    rw [Machine.step_bestChain]
    exact ⟨h.dir, hvalid.1, hvalid.2, fun pass hpass => ⟨(h.pass pass hpass).1, by rintro ⟨⟩⟩⟩
  | restart =>
    rw [Machine.step_restart]
    exact ⟨h.dir, h.bestChain, h.genesis, by rintro _ ⟨⟩⟩
  | update =>
    cases hphase : m.phase with
    | idle | returned result =>
      simp only [Machine.step, hphase]
      exact ⟨h.dir, h.bestChain, h.genesis, by rintro _ ⟨⟩⟩
    | ready | running pass | reorged height depth => simpa only [Machine.step, hphase] using h
  | start blockCount fault =>
    cases hphase : m.phase with
    | ready =>
      simp only [Machine.step, hphase]
      split
      · exact h.failed h.dir _
      · rename_i hstart
        exact h.start hinj hstart
    | idle | running pass | reorged height depth | returned result =>
      simpa only [Machine.step, hphase] using h
  | fetch givesUp =>
    cases hphase : m.phase with
    | running pass =>
      simp only [Machine.step, hphase]
      exact h.fetch hphase givesUp
    | idle | ready | reorged height depth | returned result =>
      simpa only [Machine.step, hphase] using h
  | receive env =>
    cases hphase : m.phase with
    | running pass => exact h.receive hinj hbegun hphase env
    | idle | ready | reorged height depth | returned result =>
      simpa only [Machine.step, hphase] using h
  | finish order savepoint =>
    cases hphase : m.phase with
    | running pass => exact h.finish hphase order savepoint
    | idle | ready | reorged height depth | returned result =>
      simpa only [Machine.step, hphase] using h
  | recover =>
    cases hphase : m.phase with
    | reorged height depth => exact h.recover hphase
    | idle | ready | running pass | returned result =>
      simpa only [Machine.step, hphase] using h

theorem sound_start {chain : List BlockData} (hchain : HeaderChain members (chainHeaders chain))
    (hgenesis : chain ≠ []) : (Machine.start chain).Sound members :=
  ⟨⟨⟨.nil, nofun⟩, nofun⟩, hchain, hgenesis, nofun⟩

/-! ### Updates that return -/

/-- An update that returned while the best chain stayed left the index on it. -/
def UpdatedOnChain (m : Machine) : Prop :=
  m.phase = .returned (.ok ()) → m.changed = false →
    OnChain m.dir.store.tables.headers m.bestChain

/-- A pass ends that received no block and did not begin as high as the node, so that it compared
nothing, and the index is not on the best chain. -/
def Overlooks (m : Machine) (action : Action) : Prop :=
  (∃ order savepoint, action = .finish order savepoint) ∧ m.changed = false ∧
    ∃ pass, m.phase = .running pass ∧ pass.channel = [] ∧ pass.fetching = false ∧
      pass.height = pass.startingIndexHeight ∧ pass.height ≠ m.bestChain.length ∧
      ¬OnChain m.dir.store.tables.headers m.bestChain

omit [Digests] in
theorem updatedOnChain_of_phase (h : m.phase ≠ .returned (.ok ())) : UpdatedOnChain m :=
  fun hphase => absurd hphase h

omit [Digests] in
theorem updatedOnChain_failed (m : Machine) (err : UpdateError) : UpdatedOnChain (m.failed err) := by
  cases err <;> exact updatedOnChain_of_phase nofun

theorem updatedOnChain_finish (h : m.Sound members) (hbegun : m.Begun) (hupdated : UpdatedOnChain m)
    (order : CacheOrder) (savepoint : SavepointEnv) :
    UpdatedOnChain (m.step config settings (.finish order savepoint)) ↔
      ¬Overlooks m (.finish order savepoint) := by
  cases hphase : m.phase with
  | running pass =>
    obtain ⟨-, hsynced⟩ := h.pass pass hphase
    have hpass := hbegun pass hphase
    have hsettled : pass.height = pass.startingIndexHeight → pass.uncommitted = 0 := by
      have hcounted := hpass.counted
      have hstarting := hpass.starting
      omega
    simp only [Machine.step, hphase]
    split
    · rename_i hclosed
      simp only [Bool.and_eq_true, List.isEmpty_iff, Bool.not_eq_true'] at hclosed
      split
      · rename_i err dir' heq
        refine iff_of_true (updatedOnChain_failed _ _) ?_
        rintro ⟨-, -, running, hrunning, -, -, hnone, -⟩
        rw [hphase] at hrunning
        cases hrunning
        rw [finishPass, if_neg (by have := hsettled hnone; omega)] at heq
        cases heq
      · rename_i dir' heq
        have hheaders := hpass.headers_finish heq
        constructor
        · rintro hreturned ⟨-, hsame, running, hrunning, -, -, hnone, -, hoff⟩
          rw [hphase] at hrunning
          cases hrunning
          have hon : OnChain dir'.store.tables.headers m.bestChain := hreturned rfl hsame
          rw [hheaders, ← hpass.settled (hsettled hnone)] at hon
          exact hoff hon
        · intro hnot _ hsame
          show OnChain dir'.store.tables.headers m.bestChain
          rw [hheaders]
          by_cases hcompared : pass.startingIndexHeight < pass.height ∨
              pass.startingIndexHeight = m.bestChain.length
          · exact (hsynced hsame).compared hcompared
          · have hstarting := hpass.starting
            have hcounted := hpass.counted
            have hnone : pass.height = pass.startingIndexHeight := by omega
            by_contra hoff
            rw [← hpass.settled (hsettled hnone)] at hoff
            exact hnot ⟨⟨order, savepoint, rfl⟩, hsame, pass, hphase, hclosed.1, hclosed.2, hnone,
              by omega, hoff⟩
    · rename_i hopen
      refine iff_of_true hupdated ?_
      rintro ⟨-, -, running, hrunning, hchannel, hfetching, -⟩
      rw [hphase] at hrunning
      cases hrunning
      exact hopen (by rw [hchannel, hfetching]; rfl)
  | idle | ready | reorged height depth | returned result =>
    simp only [Machine.step, hphase]
    refine iff_of_true hupdated ?_
    rintro ⟨-, -, running, hrunning, -⟩
    rw [hphase] at hrunning
    cases hrunning

/-- An update that returns leaves the index on the best chain, unless it overlooks that it is not. -/
theorem updatedOnChain_step (h : m.Sound members) (hbegun : m.Begun) (hupdated : UpdatedOnChain m)
    (action : Action) :
    UpdatedOnChain (m.step config settings action) ↔ ¬Overlooks m action := by
  by_cases hfinish : ∃ order savepoint, action = .finish order savepoint
  · obtain ⟨order, savepoint, rfl⟩ := hfinish
    exact updatedOnChain_finish h hbegun hupdated order savepoint
  refine iff_of_true ?_ fun hoverlooks => hfinish hoverlooks.1
  cases action with
  | bestChain chain =>
    rw [Machine.step_bestChain]
    exact fun _ hsame => by cases hsame
  | restart =>
    rw [Machine.step_restart]
    exact updatedOnChain_of_phase (by rintro ⟨⟩)
  | finish order savepoint => exact absurd ⟨order, savepoint, rfl⟩ hfinish
  | update =>
    cases hphase : m.phase with
    | idle | returned result =>
      simp only [Machine.step, hphase]
      exact updatedOnChain_of_phase (by rintro ⟨⟩)
    | ready | running pass | reorged height depth =>
      simpa only [Machine.step, hphase] using hupdated
  | start blockCount fault =>
    cases hphase : m.phase with
    | ready =>
      simp only [Machine.step, hphase]
      split
      · exact updatedOnChain_failed _ _
      · exact updatedOnChain_of_phase (by rintro ⟨⟩)
    | idle | running pass | reorged height depth | returned result =>
      simpa only [Machine.step, hphase] using hupdated
  | fetch givesUp =>
    cases hphase : m.phase with
    | running pass =>
      simp only [Machine.step, hphase]
      exact updatedOnChain_of_phase (by rintro ⟨⟩)
    | idle | ready | reorged height depth | returned result =>
      simpa only [Machine.step, hphase] using hupdated
  | receive env =>
    cases hphase : m.phase with
    | running pass =>
      simp only [Machine.step, hphase]
      split
      · exact hupdated
      · split
        · exact updatedOnChain_failed _ _
        · exact updatedOnChain_of_phase (by rintro ⟨⟩)
    | idle | ready | reorged height depth | returned result =>
      simpa only [Machine.step, hphase] using hupdated
  | recover =>
    cases hphase : m.phase with
    | reorged height depth =>
      simp only [Machine.step, hphase]
      split
      · exact updatedOnChain_of_phase (by rintro ⟨⟩)
      · exact updatedOnChain_of_phase (by rintro ⟨⟩)
    | idle | ready | running pass | returned result =>
      simpa only [Machine.step, hphase] using hupdated

/-- The headers of the best chains of a run. -/
def RunHeaders (chain : List BlockData) (actions : List Action) : Set Header :=
  {header | header ∈ chainHeaders chain ∨
    ∃ best, Action.bestChain best ∈ actions ∧ header ∈ chainHeaders best}

/-- The best chains of a run are linked from a genesis block on, and no two of their headers have one
hash. -/
structure ValidRun (chain : List BlockData) (actions : List Action) : Prop where
  first : Linked Header.blockHash Header.prevBlockhash (chainHeaders chain) ∧ chain ≠ []
  later : ∀ best, Action.bestChain best ∈ actions →
    Linked Header.blockHash Header.prevBlockhash (chainHeaders best) ∧ best ≠ []
  collisionFree : Set.InjOn Header.blockHash (RunHeaders chain actions)

theorem ValidRun.sound {chain : List BlockData} {actions : List Action}
    (h : ValidRun chain actions) :
    (Machine.start chain).Begun ∧ (Machine.start chain).Sound (RunHeaders chain actions) :=
  ⟨Machine.begun_start chain, sound_start ⟨h.first.1, fun _ => .inl⟩ h.first.2⟩

theorem ValidRun.action {chain : List BlockData} {actions : List Action}
    (h : ValidRun chain actions) {action : Action} (hmem : action ∈ actions) :
    ValidAction (RunHeaders chain actions) action := by
  cases action with
  | bestChain best =>
    exact ⟨⟨(h.later best hmem).1, fun header hheader => .inr ⟨best, hmem, hheader⟩⟩,
      (h.later best hmem).2⟩
  | _ => trivial

/-- The headers of the index, and those of a pass, are put at consecutive heights, and each names the
hash of the one below it. -/
def HeadersLinked (m : Machine) : Prop :=
  Linked Header.blockHash Header.prevBlockhash m.dir.store.tables.headers ∧
    ∀ pass, m.phase = .running pass → pass.height = pass.index.tables.headers.length ∧
      Linked Header.blockHash Header.prevBlockhash pass.index.tables.headers

/-- In every state the headers are linked; and the updates that return leave the index on the best
chain exactly when none of them overlooks that it is not. -/
theorem updatedOnChain_iff (config : IndexConfig) (settings : UpdaterSettings)
    {chain : List BlockData} {actions : List Action} (h : ValidRun chain actions) :
    Always (Machine.step config settings) HeadersLinked (.start chain) actions ∧
      (Always (Machine.step config settings) UpdatedOnChain (.start chain) actions ↔
        EachStep (Machine.step config settings) (fun m action => ¬Overlooks m action) (.start chain)
          actions) := by
  have hkeep : ∀ m : Machine, ∀ action ∈ actions, m.Begun ∧ m.Sound (RunHeaders chain actions) →
      (m.step config settings action).Begun ∧
        (m.step config settings action).Sound (RunHeaders chain actions) :=
    fun m action hmem hsound => ⟨(hsound.1.step action).1,
      hsound.2.step h.collisionFree hsound.1 (h.action hmem)⟩
  constructor
  · intro front hfront
    obtain ⟨hbegun, hsound⟩ := always_of_keeps hkeep h.sound front hfront
    exact ⟨hsound.dir.headers.linked, fun pass hpass =>
      ⟨(hbegun pass hpass).height, (hsound.pass pass hpass).1.headers.linked⟩⟩
  · exact always_iff_of_keeps (fun s call hcall hI _ _ => hkeep s call hcall hI)
      (fun m action _ hsound hupdated => updatedOnChain_step hsound.2 hsound.1 hupdated action) h.sound
      (updatedOnChain_of_phase nofun)

end

/-! ### A node that goes back -/

deriving instance DecidableEq for BlockData

section

attribute [local instance] Format.sha256Digests

/-- A header on top of a hash. -/
def exampleHeader (prevBlockhash : Bytes32) (nonce : UInt32) : Header :=
  ⟨1, prevBlockhash, Bytes32.replicate 0, 0, 0, nonce⟩

def genesisHeader : Header := exampleHeader (Bytes32.replicate 0) 0

/-- Blocks of these nonces on top of one another. -/
def exampleBranch (below : Header) : List UInt32 → List BlockData
  | [] => []
  | nonce :: rest =>
    ⟨exampleHeader below.blockHash nonce, []⟩ ::
      exampleBranch (exampleHeader below.blockHash nonce) rest

/-- The genesis block and blocks of these nonces. -/
def exampleChain (nonces : List UInt32) : List BlockData :=
  ⟨genesisHeader, []⟩ :: exampleBranch genesisHeader nonces

def exampleConfig : IndexConfig := ⟨false, false⟩

def exampleSettings : UpdaterSettings := ⟨10, 2, 5000, none, 0, true, false⟩

def receiveEnv (headers : Nat) : ReceiveEnv :=
  ⟨fun _ => none, .ok headers, .asListed, ⟨.ok headers, .ok ()⟩, false⟩

def finishAction (headers : Nat) : Action :=
  .finish .asListed ⟨.ok headers, .ok ()⟩

/-- A call that fetches and receives this many blocks. -/
def exampleUpdate (blocks headers : Nat) : List Action :=
  [.update, .start (.ok ()) fun _ => none] ++
    (List.replicate blocks [.fetch false, .receive (receiveEnv headers)]).flatten ++
    [.fetch false, finishAction headers]

theorem linked_exampleBranch (below : Header) (nonces : List UInt32) :
    Linked Header.blockHash Header.prevBlockhash
      (chainHeaders (⟨below, []⟩ :: exampleBranch below nonces)) := by
  induction nonces generalizing below with
  | nil => exact .singleton _
  | cons nonce rest ih => exact .cons_cons rfl (ih _)

/-- A run over example chains whose headers are among these, of different hashes. -/
theorem validRun_example {nonces : List UInt32} {actions : List Action} (headers : List Header)
    (hnodup : (headers.map Header.blockHash).Nodup)
    (hfirst : chainHeaders (exampleChain nonces) ⊆ headers)
    (hlater : ∀ best, Action.bestChain best ∈ actions →
      ∃ nonces, best = exampleChain nonces ∧ chainHeaders best ⊆ headers) :
    ValidRun (exampleChain nonces) actions := by
  have hchain : ∀ nonces, Linked Header.blockHash Header.prevBlockhash
      (chainHeaders (exampleChain nonces)) ∧ exampleChain nonces ≠ [] := fun nonces =>
    ⟨linked_exampleBranch genesisHeader nonces, List.cons_ne_nil _ _⟩
  refine ⟨hchain nonces, fun best hbest => ?_, ?_⟩
  · obtain ⟨others, rfl, -⟩ := hlater best hbest
    exact hchain others
  · have hsub : ∀ header ∈ RunHeaders (exampleChain nonces) actions, header ∈ headers := by
      rintro header (hheader | ⟨best, hbest, hheader⟩)
      · exact hfirst hheader
      · obtain ⟨others, -, hincluded⟩ := hlater best hbest
        exact hincluded hheader
    intro a ha b hb heq
    exact List.inj_on_of_nodup_map hnodup (hsub a ha) (hsub b hb) heq

/-- The step ends no pass that has received no block. -/
def compares (m : Machine) (action : Action) : Bool :=
  match action, m.phase with
  | .finish _ _, .running pass => pass.height ≠ pass.startingIndexHeight
  | _, _ => true

theorem not_overlooks_of_compares {m : Machine} {action : Action} (h : compares m action = true) :
    ¬Overlooks m action := by
  rintro ⟨⟨order, savepoint, rfl⟩, -, pass, hpass, -, -, hnone, -⟩
  simp only [compares, hpass, decide_eq_true_eq] at h
  exact h hnone

/-- Settings that keep three savepoints. -/
def recoverySettings : UpdaterSettings := { exampleSettings with maxSavepoints := 3 }

/-- Three blocks one after the other, the last of which is replaced by two others. -/
def recoveredRun : List Action :=
  exampleUpdate 1 0 ++ [.bestChain (exampleChain [1])] ++ exampleUpdate 1 1 ++
    [.bestChain (exampleChain [1, 2])] ++ exampleUpdate 1 2 ++ [.bestChain (exampleChain [1, 3, 4])] ++
    [.update, .start (.ok ()) fun _ => none, .fetch false, .receive (receiveEnv 3), .recover,
      .start (.ok ()) fun _ => none] ++
    (List.replicate 3 [.fetch false, .receive (receiveEnv 3)]).flatten ++ [.fetch false, finishAction 3]

/-- The update goes back to a savepoint and is then on the new chain. -/
theorem updatedOnChain_recovered :
    Always (Machine.step exampleConfig recoverySettings) UpdatedOnChain (.start (exampleChain []))
      recoveredRun := by
  have hvalid : ValidRun (exampleChain []) recoveredRun := by
    let above := exampleHeader genesisHeader.blockHash 1
    refine validRun_example (genesisHeader :: above :: exampleHeader above.blockHash 2 ::
      chainHeaders (exampleBranch above [3, 4])) (by decide +kernel) ?_ ?_
    · simp [chainHeaders, exampleChain, exampleBranch]
    · intro best hbest
      have hbest : best = exampleChain [1] ∨ best = exampleChain [1, 2] ∨
          best = exampleChain [1, 3, 4] := by
        simpa [recoveredRun, exampleUpdate, finishAction, or_assoc] using hbest
      rcases hbest with rfl | rfl | rfl
      · exact ⟨_, rfl, by simp [chainHeaders, exampleChain, exampleBranch, above]⟩
      · exact ⟨_, rfl, by simp [chainHeaders, exampleChain, exampleBranch, above]⟩
      · exact ⟨_, rfl, by simp [chainHeaders, exampleChain, exampleBranch, above]⟩
  refine ((updatedOnChain_iff exampleConfig recoverySettings hvalid).2).mpr ?_
  have hcompares : EachStep (Machine.step exampleConfig recoverySettings)
      (fun m action => compares m action = true) (.start (exampleChain [])) recoveredRun := by
    decide +kernel
  intro front action hwithin
  exact not_overlooks_of_compares (hcompares front action hwithin)

def Phase.returnedOk : Phase → Bool
  | .returned (.ok ()) => true
  | _ => false

theorem eq_of_returnedOk {phase : Phase} (h : phase.returnedOk = true) :
    phase = .returned (.ok ()) := by
  cases phase with
  | returned result =>
    cases result with
    | ok => rfl
    | error err => cases h
  | idle | ready | running pass | reorged height depth => cases h

/-- Two blocks on top of the genesis block, and another one in their place. -/
def shorterRun : List Action :=
  exampleUpdate 3 2 ++ [.bestChain (exampleChain [3])] ++ exampleUpdate 0 1

/-- The update after the reorganisation to a shorter chain returns without an error, and the index is
on the chain before it. -/
theorem not_updatedOnChain_shorter : ValidRun (exampleChain [1, 2]) shorterRun ∧
    ¬Always (Machine.step exampleConfig exampleSettings) UpdatedOnChain (.start (exampleChain [1, 2]))
      shorterRun := by
  constructor
  · refine validRun_example (chainHeaders (exampleChain [1, 2]) ++
      [exampleHeader genesisHeader.blockHash 3]) (by decide +kernel) (List.subset_append_left _ _) ?_
    intro best hbest
    have hbest' : best = exampleChain [3] := by
      simpa [shorterRun, exampleUpdate, finishAction] using hbest
    refine ⟨[3], hbest', ?_⟩
    rw [hbest']
    intro header hheader
    simp only [chainHeaders, exampleChain, exampleBranch, List.map_cons, List.map_nil,
      List.mem_cons, List.not_mem_nil, or_false] at hheader
    rcases hheader with rfl | rfl
    · exact List.mem_append_left _ List.mem_cons_self
    · exact List.mem_append_right _ List.mem_cons_self
  · intro h
    have hlast := h shorterRun (List.prefix_refl _)
    have heq := hlast (eq_of_returnedOk (by decide +kernel)) (by decide +kernel) 1
      (exampleHeader genesisHeader.blockHash 1) ⟨exampleHeader genesisHeader.blockHash 3, []⟩
      (by decide +kernel) (by decide +kernel)
    exact absurd (congrArg Header.nonce heq) (by decide)

end

end Lord.Index
