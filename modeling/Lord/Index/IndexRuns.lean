import Lord.Index.CommitView
import Mathlib.Data.List.DropRight

/-! Runs of the updater over the blocks of a valid chain, with commits in any places. -/

namespace Lord.Index

open Bitcoin Ordinals

/-! ### The chain of a run -/

def Event.block? : Event → Option BlockData
  | .block data => some data
  | .commit _ => none

def eventBlocks (events : List Event) : List BlockData := events.filterMap Event.block?

/-- The events up to the last commit. -/
def committedEvents (events : List Event) : List Event :=
  events.rdropWhile fun event => event.block?.isSome

/-- The chain state after these events, whose blocks are valid. -/
def chainAfter (events : List Event) : ChainState :=
  (applyBlocks (eventBlocks events)).getD ChainState.genesis

/-- The ledger with the height that comes next. -/
def ledgerBlocks (blocks : List BlockData) : Nat × Ledger :=
  blocks.foldl (fun s block => (s.1 + 1, ledgerBlock s.1 s.2 block)) (0, Ledger.genesis)

def ledgerAfter (events : List Event) : Ledger := (ledgerBlocks (eventBlocks events)).2

theorem eventBlocks_concat_block (events : List Event) (block : BlockData) :
    eventBlocks (events ++ [.block block]) = eventBlocks events ++ [block] := by
  simp [eventBlocks, Event.block?]

theorem eventBlocks_concat_commit (events : List Event) (order : CacheOrder) :
    eventBlocks (events ++ [.commit order]) = eventBlocks events := by
  simp [eventBlocks, Event.block?]

theorem committedEvents_concat_block (events : List Event) (block : BlockData) :
    committedEvents (events ++ [.block block]) = committedEvents events :=
  List.rdropWhile_concat_pos _ _ _ rfl

theorem committedEvents_concat_commit (events : List Event) (order : CacheOrder) :
    committedEvents (events ++ [.commit order]) = events ++ [.commit order] :=
  List.rdropWhile_concat_neg _ _ _ (by simp [Event.block?])

theorem applyBlocks_concat (blocks : List BlockData) (block : BlockData) :
    applyBlocks (blocks ++ [block]) = (applyBlocks blocks).bind (applyBlock · block) := by
  simp [applyBlocks, List.foldlM_append]

theorem ledgerBlocks_concat (blocks : List BlockData) (block : BlockData) :
    ledgerBlocks (blocks ++ [block]) =
      ((ledgerBlocks blocks).1 + 1, ledgerBlock (ledgerBlocks blocks).1 (ledgerBlocks blocks).2 block) := by
  simp [ledgerBlocks, List.foldl_append]

theorem runEvents_concat (config : IndexConfig) (s : IndexState) (events : List Event)
    (event : Event) :
    runEvents config s (events ++ [event]) = runEvents config s events >>= (exec config · event) := by
  rw [runEvents, List.foldlM_append]
  refine congrArg (_ >>= ·) (funext fun s => ?_)
  rw [List.foldlM_cons]
  cases exec config s event <;> rfl

/-- An index without anything in it. -/
def IndexState.start : IndexState := ⟨Tables.empty, ∅⟩

/-! ### Every state of a run -/

/-- The index after these events. -/
structure Indexed (config : IndexConfig) (events : List Event) (s : IndexState) : Prop where
  valid : applyBlocks (eventBlocks events) = some (chainAfter events)
  height : (ledgerBlocks (eventBlocks events)).1 = (chainAfter events).height
  conserved : Conserved (chainAfter events).height (chainAfter events) (ledgerAfter events) []
  view : View config (chainAfter (committedEvents events), ledgerAfter (committedEvents events))
    (chainAfter events) (ledgerAfter events) s
  headers : s.tables.headers = (eventBlocks events).map BlockData.header

section Runs

variable {config : IndexConfig} {events : List Event} {s : IndexState}

theorem indexed_start : Indexed config [] IndexState.start where
  valid := rfl
  height := rfl
  conserved := Conserved.genesis
  view := {
    entries := fun _ _ => rfl
    cached := fun _ _ hmem => absurd hmem (AList.notMem_empty _)
    stored := fun _ _ hsome => absurd rfl hsome
    committed_txids := fun _ hmem => absurd hmem (AList.notMem_empty _)
    committed_lost := rfl
    lost := ⟨[], rfl, (if_neg fun hboth => hboth.2 rfl).symm, (if_neg fun hboth => hboth.2 rfl).symm⟩
    scripts := fun script outpoint => by simp [IndexState.start, Tables.empty]
    rows := by split <;> rfl
    lost_sats := by split <;> rfl
    headers := rfl }
  headers := rfl

/-- A valid block is indexed. -/
theorem Indexed.block (h : Indexed config events s)
    (hfull : (config.indexAddresses || config.indexSats) = true) {block : BlockData}
    {chain : ChainState} (happly : applyBlock (chainAfter events) block = some chain) :
    ∃ s', indexBlock config s block = .ok s' ∧ Indexed config (events ++ [.block block]) s' := by
  obtain ⟨s', hrun, hview, hheaders⟩ := h.view.block h.conserved hfull happly
  have hconserved := h.conserved.block happly
  have hvalid : applyBlocks (eventBlocks (events ++ [.block block])) = some chain := by
    rw [eventBlocks_concat_block, applyBlocks_concat, h.valid]
    exact happly
  have hchain : chainAfter (events ++ [.block block]) = chain := by
    rw [chainAfter, hvalid]
    rfl
  have hledger : ledgerAfter (events ++ [.block block]) =
      ledgerBlock (chainAfter events).height (ledgerAfter events) block := by
    rw [ledgerAfter, eventBlocks_concat_block, ledgerBlocks_concat, h.height]
    rfl
  refine ⟨s', hrun, ?_⟩
  constructor
  · rw [hvalid, hchain]
  · obtain ⟨_, _, middle, last, _, hrest, hcoinbase, rfl⟩ := applyBlock_eq_some.mp happly
    rw [eventBlocks_concat_block, ledgerBlocks_concat, h.height, hchain]
    show _ = last.height + 1
    rw [height_applyCoinbase hcoinbase, height_foldlM hrest]
  · rw [hchain, hledger]
    exact hconserved
  · rw [committedEvents_concat_block, hchain, hledger]
    exact hview
  · rw [hheaders, h.headers, eventBlocks_concat_block, List.map_append]
    rfl

/-- A commit succeeds when LMDB takes all it puts. -/
theorem Indexed.commit (h : Indexed config events s) (order : CacheOrder) :
    Committable config (chainAfter (committedEvents events)) (chainAfter events) ∧
        (∃ s', Index.commit config s order = .ok s' ∧
          Indexed config (events ++ [.commit order]) s') ∨
      ¬Committable config (chainAfter (committedEvents events)) (chainAfter events) ∧
        ∃ err, Index.commit config s order = .error (.err err) := by
  have hchain : chainAfter (events ++ [.commit order]) = chainAfter events := by
    rw [chainAfter, eventBlocks_concat_commit, chainAfter]
  have hledger : ledgerAfter (events ++ [.commit order]) = ledgerAfter events := by
    rw [ledgerAfter, eventBlocks_concat_commit, ledgerAfter]
  rcases h.view.commit h.conserved order with ⟨hcommittable, s', hrun, hview, hheaders, -⟩ | herr
  · refine .inl ⟨hcommittable, s', hrun, ?_⟩
    constructor
    · rw [eventBlocks_concat_commit, hchain, h.valid]
    · rw [eventBlocks_concat_commit, hchain, h.height]
    · rw [hchain, hledger]
      exact h.conserved
    · rw [committedEvents_concat_commit, hchain, hledger]
      exact hview
    · rw [hheaders, h.headers, eventBlocks_concat_commit]
  · exact .inr herr

/-- A run over valid blocks reaches the index of its events, unless a commit fails. -/
theorem indexed_run (hfull : (config.indexAddresses || config.indexSats) = true)
    (hvalid : (applyBlocks (eventBlocks events)).isSome = true) :
    (∃ s, runEvents config .start events = .ok s ∧ Indexed config events s) ∨
      config.indexAddresses = true ∧ ∃ err, runEvents config .start events = .error (.err err) := by
  induction events using List.reverseRecOn with
  | nil => exact .inl ⟨_, rfl, indexed_start⟩
  | append_singleton events event ih =>
    rw [runEvents_concat]
    cases event with
    | block block =>
      rw [eventBlocks_concat_block, applyBlocks_concat] at hvalid
      obtain ⟨chain, happly⟩ := Option.isSome_iff_exists.mp hvalid
      obtain ⟨before, hbefore, happly⟩ := Option.bind_eq_some_iff.mp happly
      rcases ih (by rw [hbefore]; rfl) with ⟨s, hrun, h⟩ | ⟨haddresses, err, hrun⟩
      · have hchain : chainAfter events = before := Option.some.inj (h.valid.symm.trans hbefore)
        obtain ⟨s', hblock, h'⟩ := h.block hfull (hchain.symm ▸ happly)
        exact .inl ⟨s', by rw [hrun]; exact hblock, h'⟩
      · exact .inr ⟨haddresses, err, by rw [hrun]; rfl⟩
    | commit order =>
      rw [eventBlocks_concat_commit] at hvalid
      rcases ih hvalid with ⟨s, hrun, h⟩ | ⟨haddresses, err, hrun⟩
      · rcases h.commit order with ⟨-, s', hcommit, h'⟩ | ⟨hnot, err, hcommit⟩
        · exact .inl ⟨s', by rw [hrun]; exact hcommit, h'⟩
        · refine .inr ⟨?_, err, by rw [hrun]; exact hcommit⟩
          by_contra haddresses
          exact hnot fun hon => absurd hon haddresses
      · exact .inr ⟨haddresses, err, by rw [hrun]; rfl⟩

end Runs

/-! ### Example blocks -/

/-- A block with nothing but a coinbase that pays these outputs. -/
def coinbaseBlock (id : UInt8) (outputs : List TxOut) : BlockData where
  header := ⟨1, OutPoint.null.txid, OutPoint.null.txid, 0, 0, 0⟩
  txdata := [(⟨1, 0, [⟨OutPoint.null, [], 0, []⟩], outputs⟩, Bytes32.replicate id)]

/-- A block whose coinbase claims twenty coins of fifty, and a commit. -/
def exampleEvents : List Event :=
  [.block (coinbaseBlock 1 [⟨2000000000, [0x51]⟩]), .commit .asListed]

end Lord.Index
