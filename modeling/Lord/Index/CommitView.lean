import Lord.Index.BlockRuns

/-! A commit moves the cache to the tables.  It succeeds when LMDB takes the script pubkeys of the
cached outputs, and then it does not matter in which order they come. -/

namespace Lord.Index

open Bitcoin Ordinals

/-- The entry that a commit puts for a cached one. -/
def resolve (config : IndexConfig) (old : Option Bytes) (outpoint : OutPoint) (cached : Bytes) :
    Option Bytes :=
  match isSpecialOutpoint outpoint, old with
  | true, some old => UtxoEntry.merged config old cached
  | _, _ => some cached

/-- The entry of an outpoint, where the cache goes over the tables. -/
def overlay (config : IndexConfig) (s : IndexState) (outpoint : OutPoint) : Option Bytes :=
  match s.cache.lookup outpoint with
  | none => s.tables.outpointToUtxoEntry outpoint
  | some cached => resolve config (s.tables.outpointToUtxoEntry outpoint) outpoint cached

/-- LMDB takes the script pubkey as a key. -/
def Puttable (script : Bytes) : Prop := script ≠ [] ∧ script.length ≤ lmdbMaxKeySize

theorem length_serialize (outpoint : OutPoint) : outpoint.serialize.length = 36 := by
  rw [OutPoint.serialize, List.length_append, outpoint.txid.2, LittleEndian.length_encode]

theorem putScriptPubkey_of_puttable {script : Bytes} (h : Puttable script) (tables : Tables)
    (outpoint : OutPoint) :
    putScriptPubkey tables script outpoint =
      .ok { tables with scriptPubkeyToOutpoint := fun key value =>
              (key = script && value = outpoint) || tables.scriptPubkeyToOutpoint key value } := by
  have hlimit : lmdbMaxKeySize = 511 := rfl
  refine if_neg ?_
  rw [length_serialize]
  rintro (hzero | hlong | hvalue)
  · exact h.1 (List.length_eq_zero_iff.mp hzero)
  · exact Nat.not_lt.mpr h.2 hlong
  · omega

theorem putScriptPubkey_of_not_puttable {script : Bytes} (h : ¬Puttable script) (tables : Tables)
    (outpoint : OutPoint) : ∃ err, putScriptPubkey tables script outpoint = .error err := by
  refine ⟨_, if_pos ?_⟩
  by_cases hempty : script = []
  · exact .inl (List.length_eq_zero_iff.mpr hempty)
  · exact .inr (.inl (Nat.not_le.mp fun hshort => h ⟨hempty, hshort⟩))

/-! ### Entries one after the other -/

section Fold

variable (config : IndexConfig) (entry script : OutPoint → Bytes)

/-- The tables with the entries of these outpoints. -/
def putAll (tables : Tables) (outpoints : List OutPoint) : Tables :=
  { tables with
    outpointToUtxoEntry := fun outpoint =>
      if outpoint ∈ outpoints then some (entry outpoint) else tables.outpointToUtxoEntry outpoint
    scriptPubkeyToOutpoint := fun key outpoint =>
      (config.indexAddresses && decide (outpoint ∈ outpoints) && decide (key = script outpoint)) ||
        tables.scriptPubkeyToOutpoint key outpoint }

theorem putAll_nil (tables : Tables) : putAll config entry script tables [] = tables := by
  simp [putAll]

theorem putAll_cons (tables : Tables) (outpoint : OutPoint) (rest : List OutPoint) :
    putAll config entry script (putAll config entry script tables [outpoint]) rest =
      putAll config entry script tables (outpoint :: rest) := by
  unfold putAll
  congr 1
  · funext other
    by_cases hrest : other ∈ rest
    · simp [hrest]
    · by_cases heq : other = outpoint <;> simp [hrest, heq]
  · funext key other
    rw [Bool.eq_iff_iff]
    simp only [Bool.or_eq_true, Bool.and_eq_true, decide_eq_true_eq, List.mem_cons,
      List.not_mem_nil, or_false]
    tauto

variable {config entry script}

theorem commitEntry_eq (tables : Tables) (cached : Σ _ : OutPoint, Bytes) :
    commitEntry config tables cached = (do
      let entry ← okOr (resolve config (tables.outpointToUtxoEntry cached.1) cached.1 cached.2)
        (Fault.panic "assertion failed: a_parsed.script_pubkey().is_empty()")
      let tables := putUtxoEntry tables cached.1 (some entry)
      if config.indexAddresses then
        match entryScript config entry with
        | none => .error (.panic "called `Option::unwrap()` on a `None` value")
        | some scriptPubkey => (putScriptPubkey tables scriptPubkey cached.1).outcome
      else
        .ok tables) := by
  unfold commitEntry resolve
  cases isSpecialOutpoint cached.1 <;> cases tables.outpointToUtxoEntry cached.1 <;> rfl

theorem commitEntry_spec {tables : Tables} {cached : Σ _ : OutPoint, Bytes}
    (hentry : resolve config (tables.outpointToUtxoEntry cached.1) cached.1 cached.2 =
      some (entry cached.1))
    (hscript : entryScript config (entry cached.1) =
      if config.indexAddresses then some (script cached.1) else none) :
    (config.indexAddresses = true → Puttable (script cached.1)) ∧
        commitEntry config tables cached = .ok (putAll config entry script tables [cached.1]) ∨
      config.indexAddresses = true ∧ ¬Puttable (script cached.1) ∧
        ∃ err, commitEntry config tables cached = .error (.err err) := by
  have hupdate : Function.update tables.outpointToUtxoEntry cached.1 (some (entry cached.1)) =
      fun outpoint => if outpoint ∈ [cached.1] then some (entry outpoint)
        else tables.outpointToUtxoEntry outpoint := by
    funext outpoint
    by_cases heq : outpoint = cached.1
    · subst heq
      simp
    · simp [heq]
  rw [commitEntry_eq, hentry]
  simp only [okOr, bind, Except.bind]
  rw [hscript]
  by_cases haddresses : config.indexAddresses = true
  · rw [if_pos haddresses, if_pos haddresses]
    by_cases hput : Puttable (script cached.1)
    · refine .inl ⟨fun _ => hput, ?_⟩
      have hscripts : (fun key outpoint =>
            (decide (key = script cached.1) && decide (outpoint = cached.1)) ||
              tables.scriptPubkeyToOutpoint key outpoint) =
          fun key outpoint => (config.indexAddresses && decide (outpoint ∈ [cached.1]) &&
            decide (key = script outpoint)) || tables.scriptPubkeyToOutpoint key outpoint := by
        funext key outpoint
        by_cases heq : outpoint = cached.1
        · subst heq
          simp [haddresses]
        · simp [heq]
      dsimp only
      rw [putScriptPubkey_of_puttable hput, putAll, ← hupdate, ← hscripts]
      rfl
    · obtain ⟨err, herr⟩ := putScriptPubkey_of_not_puttable hput
        (putUtxoEntry tables cached.1 (some (entry cached.1))) cached.1
      refine .inr ⟨haddresses, hput, err, ?_⟩
      dsimp only
      rw [herr]
      rfl
  · rw [if_neg haddresses]
    refine .inl ⟨fun hon => absurd hon haddresses, ?_⟩
    rw [putAll, ← hupdate]
    simp [haddresses, putUtxoEntry]

/-- Entries of distinct outpoints are put independently of each other, and so in any order. -/
theorem foldlM_commitEntry {tables : Tables} {entries : List (Σ _ : OutPoint, Bytes)}
    (hnodup : (entries.map Sigma.fst).Nodup)
    (hentries : ∀ cached ∈ entries,
      resolve config (tables.outpointToUtxoEntry cached.1) cached.1 cached.2 =
          some (entry cached.1) ∧
        entryScript config (entry cached.1) =
          if config.indexAddresses then some (script cached.1) else none) :
    (config.indexAddresses = true → ∀ cached ∈ entries, Puttable (script cached.1)) ∧
        entries.foldlM (commitEntry config) tables =
          .ok (putAll config entry script tables (entries.map Sigma.fst)) ∨
      config.indexAddresses = true ∧ (∃ cached ∈ entries, ¬Puttable (script cached.1)) ∧
        ∃ err, entries.foldlM (commitEntry config) tables = .error (.err err) := by
  induction entries generalizing tables with
  | nil =>
    refine .inl ⟨by simp, ?_⟩
    rw [List.map_nil, putAll_nil]
    rfl
  | cons cached rest ih =>
    rw [List.map_cons, List.nodup_cons] at hnodup
    obtain ⟨hentry, hscript⟩ := hentries cached List.mem_cons_self
    rw [List.foldlM_cons]
    rcases commitEntry_spec hentry hscript with ⟨hput, hok⟩ | ⟨haddresses, hput, err, herr⟩
    · rw [hok]
      -- the entries behind this one are found as before
      have hrest := @ih (putAll config entry script tables [cached.1]) hnodup.2 fun other hother => by
        have hne : other.1 ∉ [cached.1] := by
          rw [List.mem_singleton]
          intro heq
          exact hnodup.1 (heq ▸ List.mem_map_of_mem hother)
        have hsame : (putAll config entry script tables [cached.1]).outpointToUtxoEntry other.1 =
            tables.outpointToUtxoEntry other.1 := if_neg hne
        rw [hsame]
        exact hentries other (List.mem_cons_of_mem _ hother)
      rcases hrest with ⟨hputs, hoks⟩ | ⟨haddresses, ⟨other, hother, hput⟩, herr⟩
      · refine .inl ⟨fun haddresses other hother => ?_, ?_⟩
        · rcases List.mem_cons.mp hother with rfl | hother
          · exact hput haddresses
          · exact hputs haddresses other hother
        · exact hoks.trans (by rw [putAll_cons, List.map_cons])
      · exact .inr ⟨haddresses, ⟨other, List.mem_cons_of_mem _ hother, hput⟩, herr⟩
    · refine .inr ⟨haddresses, ⟨cached, List.mem_cons_self, hput⟩, err, ?_⟩
      rw [herr]
      rfl

end Fold

/-! ### Commits -/

/-- The entry of an outpoint of this chain. -/
def entryAt (config : IndexConfig) (chain : ChainState) (ledger : Ledger) (outpoint : OutPoint) :
    Option Bytes :=
  if outpoint = OutPoint.null then nullEntry config ledger.lost
  else (chain.utxos.lookup outpoint).map (outputEntry config ledger outpoint)

/-- The script pubkey of an outpoint of this chain. -/
def scriptAt (chain : ChainState) (outpoint : OutPoint) : Bytes :=
  if outpoint = OutPoint.null then []
  else ((chain.utxos.lookup outpoint).map TxOut.scriptPubkey).getD []

/-- Every output that came since the last commit has a script pubkey that LMDB takes, and there are
no new lost sats when they are indexed. -/
def Committable (config : IndexConfig) (committed chain : ChainState) : Prop :=
  config.indexAddresses = true →
    (∀ outpoint output, chain.utxos.lookup outpoint = some output → outpoint ∉ committed.utxos →
      Puttable output.scriptPubkey) ∧
    (config.indexSats = true → chain.unclaimed = committed.unclaimed)

section Commit

variable {config : IndexConfig} {committed : ChainState × Ledger} {chain : ChainState}
  {ledger : Ledger} {s : IndexState}

theorem entryScript_entryAt {outpoint : OutPoint} {entry : Bytes}
    (h : entryAt config chain ledger outpoint = some entry) :
    entryScript config entry =
      if config.indexAddresses then some (scriptAt chain outpoint) else none := by
  unfold entryAt at h
  unfold scriptAt
  split at h
  · rename_i hnull
    unfold nullEntry at h
    split at h
    · obtain rfl := Option.some.inj h
      rw [if_pos hnull]
      exact entryScript_pushed config _ (by decide) []
    · cases h
  · rename_i hnull
    obtain ⟨output, hlookup, rfl⟩ := Option.map_eq_some_iff.mp h
    rw [if_neg hnull, hlookup]
    exact entryScript_outputEntry config ledger outpoint output

/-- A cached entry resolves to the one of the chain. -/
theorem View.resolve (h : View config committed chain ledger s) {outpoint : OutPoint}
    {cached : Bytes} (hcached : s.cache.lookup outpoint = some cached) :
    Index.resolve config (s.tables.outpointToUtxoEntry outpoint) outpoint cached =
        entryAt config chain ledger outpoint ∧
      (entryAt config chain ledger outpoint).isSome = true := by
  have hmem : outpoint ∈ s.cache := AList.lookup_isSome.mp (by rw [hcached]; rfl)
  by_cases hnull : outpoint = OutPoint.null
  · subst hnull
    obtain ⟨fresh, hlost, hnullStored, hnullCached⟩ := h.lost
    rw [entryAt, if_pos rfl, hnullStored, hlost]
    rw [hnullCached] at hcached
    unfold nullEntry at hcached ⊢
    split at hcached
    · rename_i hfresh
      obtain rfl := Option.some.inj hcached
      have hspecial : isSpecialOutpoint OutPoint.null = true := by
        simp [isSpecialOutpoint]
      have hall : config.indexSats = true ∧ committed.2.lost ++ fresh ≠ [] :=
        ⟨hfresh.1, by simp [hfresh.2]⟩
      rw [if_pos hall]
      refine ⟨?_, rfl⟩
      unfold Index.resolve
      rw [hspecial]
      by_cases hold : committed.2.lost = []
      · rw [if_neg (fun hboth => hboth.2 hold), hold]
        rfl
      · rw [if_pos ⟨hfresh.1, hold⟩]
        exact UtxoEntry.merged_pushed hfresh.1 _ _
    · cases hcached
  · have hentry := h.entries outpoint hnull
    rw [hcached, Option.some_or] at hentry
    rw [entryAt, if_neg hnull, ← hentry, h.stored_of_cached hnull hmem]
    refine ⟨?_, rfl⟩
    unfold Index.resolve
    split
    · rename_i hnone
      cases hnone
    · rfl

/-- The index shows every entry of the chain. -/
theorem View.overlay (h : View config committed chain ledger s) (outpoint : OutPoint) :
    Index.overlay config s outpoint = entryAt config chain ledger outpoint := by
  unfold Index.overlay
  cases hcached : s.cache.lookup outpoint with
  | some cached => exact (h.resolve hcached).1
  | none =>
    by_cases hnull : outpoint = OutPoint.null
    · subst hnull
      obtain ⟨fresh, hlost, hnullStored, hnullCached⟩ := h.lost
      rw [hcached] at hnullCached
      rw [entryAt, if_pos rfl]
      dsimp only
      rw [hnullStored, hlost]
      unfold nullEntry at hnullCached ⊢
      split at hnullCached
      · cases hnullCached
      · rename_i hnone
        by_cases hsats : config.indexSats = true
        · have hfresh : fresh = [] := by
            by_contra hne
            exact hnone ⟨hsats, hne⟩
          rw [hfresh, List.append_nil]
        · rw [if_neg fun hboth => hsats hboth.1, if_neg fun hboth => hsats hboth.1]
    · have hentry := h.entries outpoint hnull
      rw [hcached, Option.none_or] at hentry
      rw [entryAt, if_neg hnull]
      exact hentry

/-- What a commit puts is what came since the last one. -/
theorem View.committable_iff (h : View config committed chain ledger s)
    (hconserved : Conserved chain.height chain ledger []) (haddresses : config.indexAddresses = true) :
    Committable config committed.1 chain ↔
      ∀ outpoint ∈ s.cache, Puttable (scriptAt chain outpoint) := by
  obtain ⟨fresh, hlost, hnullStored, hnullCached⟩ := h.lost
  have htotal : chain.unclaimed = committed.1.unclaimed + total fresh := by
    rw [← hconserved.lost_total, hlost, total_append, h.committed_lost]
  -- lost ranges are not empty
  have hempty : fresh = [] ↔ total fresh = 0 := by
    constructor
    · rintro rfl
      rfl
    · intro hzero
      cases hfresh : fresh with
      | nil => rfl
      | cons range rest =>
        rw [hfresh] at hlost hzero
        have := (hconserved.lost_inBlock range (by simp [hlost])).lt
        rw [total_cons] at hzero
        omega
  constructor
  · intro hcommittable outpoint hmem
    obtain ⟨hscripts, hclaimed⟩ := hcommittable haddresses
    by_cases hnull : outpoint = OutPoint.null
    · subst hnull
      rw [← AList.lookup_isSome, hnullCached] at hmem
      unfold nullEntry at hmem
      split at hmem
      · rename_i hfresh
        have := hclaimed hfresh.1
        exact absurd (hempty.mpr (by omega)) hfresh.2
      · cases hmem
    · obtain ⟨entry, hentry⟩ := Option.isSome_iff_exists.mp (AList.lookup_isSome.mpr hmem)
      have hview := h.entries outpoint hnull
      rw [hentry, Option.some_or] at hview
      obtain ⟨output, hlookup, -⟩ := Option.map_eq_some_iff.mp hview.symm
      rw [scriptAt, if_neg hnull, hlookup]
      exact hscripts outpoint output hlookup (h.cached outpoint hnull hmem)
  · intro hputtable _
    constructor
    · intro outpoint output hlookup hnew
      have hnull : outpoint ≠ OutPoint.null := by
        rintro rfl
        exact hconserved.not_null (AList.lookup_isSome.mp (by rw [hlookup]; rfl))
      have hstored : s.tables.outpointToUtxoEntry outpoint = none := by
        by_contra hne
        exact hnew (h.stored outpoint hnull hne)
      have hview := h.entries outpoint hnull
      rw [hstored, Option.or_none, hlookup, Option.map_some] at hview
      have hput := hputtable outpoint (AList.lookup_isSome.mp (by rw [hview]; rfl))
      rwa [scriptAt, if_neg hnull, hlookup] at hput
    · intro hsats
      by_contra hne
      have hfresh : fresh ≠ [] := fun hnil => by
        have := hempty.mp hnil
        omega
      rw [nullEntry, if_pos ⟨hsats, hfresh⟩] at hnullCached
      have hput := hputtable OutPoint.null (AList.lookup_isSome.mp (by rw [hnullCached]; rfl))
      rw [scriptAt, if_pos rfl] at hput
      exact hput.1 rfl

/-- Only the null outpoint has an entry in the tables while it is cached. -/
theorem View.entryScript_of_cached (h : View config committed chain ledger s) {outpoint : OutPoint}
    (hin : outpoint ∈ s.cache) {entry : Bytes}
    (hold : s.tables.outpointToUtxoEntry outpoint = some entry) :
    entryScript config entry =
      if config.indexAddresses then some (scriptAt chain outpoint) else none := by
  by_cases hnull : outpoint = OutPoint.null
  · subst hnull
    obtain ⟨_, -, hnullStored, -⟩ := h.lost
    rw [hnullStored, nullEntry] at hold
    split at hold
    · obtain rfl := Option.some.inj hold
      rw [scriptAt, if_pos rfl]
      exact entryScript_pushed config _ (by decide) []
    · cases hold
  · rw [h.stored_of_cached hnull hin] at hold
    cases hold

/-- The tables after a commit show the chain without a cache. -/
theorem View.putAll (h : View config committed chain ledger s)
    (hconserved : Conserved chain.height chain ledger []) {outpoints : List OutPoint}
    (hmem : ∀ outpoint, outpoint ∈ outpoints ↔ outpoint ∈ s.cache) :
    View config (chain, ledger) chain ledger
      ⟨Index.putAll config (fun outpoint => (entryAt config chain ledger outpoint).getD [])
        (scriptAt chain) s.tables outpoints, ∅⟩ := by
  have hstored : (Index.putAll config (fun outpoint => (entryAt config chain ledger outpoint).getD [])
      (scriptAt chain) s.tables outpoints).outpointToUtxoEntry = entryAt config chain ledger := by
    funext outpoint
    have hview := h.overlay outpoint
    unfold Index.overlay at hview
    dsimp only [Index.putAll]
    cases hcached : s.cache.lookup outpoint with
    | some cached =>
      obtain ⟨entry, hentry⟩ := Option.isSome_iff_exists.mp (h.resolve hcached).2
      rw [if_pos ((hmem outpoint).mpr (AList.lookup_isSome.mp (by rw [hcached]; rfl))), hentry]
      rfl
    | none =>
      rw [hcached] at hview
      rw [if_neg fun hin => AList.lookup_eq_none.mp hcached ((hmem outpoint).mp hin)]
      exact hview
  constructor
  · intro outpoint hnull
    dsimp only
    rw [hstored, AList.lookup_empty, Option.none_or, entryAt, if_neg hnull]
  · intro outpoint _ hin
    exact absurd hin (AList.notMem_empty _)
  · intro outpoint hnull hsome
    dsimp only at hsome
    rw [hstored, entryAt, if_neg hnull] at hsome
    by_contra hout
    rw [AList.lookup_eq_none.mpr hout] at hsome
    exact hsome rfl
  · exact hconserved.txids
  · exact hconserved.lost_total
  · refine ⟨[], by rw [List.append_nil], ?_, ?_⟩
    · dsimp only
      rw [hstored, entryAt, if_pos rfl]
    · rw [nullEntry, if_neg fun hboth => hboth.2 rfl]
      rfl
  · intro script outpoint
    dsimp only
    rw [hstored]
    dsimp only [Index.putAll]
    rw [Bool.or_eq_true, h.scripts script outpoint, Bool.and_eq_true, Bool.and_eq_true,
      decide_eq_true_eq, decide_eq_true_eq, hmem]
    by_cases hin : outpoint ∈ s.cache
    · obtain ⟨cached, hcached⟩ := Option.isSome_iff_exists.mp (AList.lookup_isSome.mpr hin)
      obtain ⟨entry, hentry⟩ := Option.isSome_iff_exists.mp (h.resolve hcached).2
      have hscript := entryScript_entryAt hentry
      rw [hentry]
      constructor
      · rintro (⟨⟨haddresses, -⟩, rfl⟩ | ⟨old, hold, hscriptOld⟩)
        · exact ⟨entry, rfl, by rw [hscript, if_pos haddresses]⟩
        · rw [h.entryScript_of_cached hin hold] at hscriptOld
          exact ⟨entry, rfl, hscript.trans hscriptOld⟩
      · rintro ⟨_, heq, hsome⟩
        obtain rfl := Option.some.inj heq
        rw [hscript] at hsome
        split at hsome
        · rename_i haddresses
          exact .inl ⟨⟨haddresses, hin⟩, (Option.some.inj hsome).symm⟩
        · cases hsome
    · have hview := h.overlay outpoint
      rw [Index.overlay, AList.lookup_eq_none.mpr hin] at hview
      dsimp only at hview
      rw [hview]
      exact or_iff_right fun hboth => hin hboth.1.2
  · exact h.rows
  · exact h.lost_sats
  · exact h.headers

/-- A commit succeeds when LMDB takes all it puts, and otherwise it fails without a panic. -/
theorem View.commit (h : View config committed chain ledger s)
    (hconserved : Conserved chain.height chain ledger []) (order : CacheOrder) :
    Committable config committed.1 chain ∧
        (∃ s', Index.commit config s order = .ok s' ∧
          View config (chain, ledger) chain ledger s' ∧
          s'.tables.headers = s.tables.headers ∧ s'.cache = ∅) ∨
      ¬Committable config committed.1 chain ∧
        ∃ err, Index.commit config s order = .error (.err err) := by
  have hmem : ∀ cached, cached ∈ order.order s.cache.entries ↔
      s.cache.lookup cached.1 = some cached.2 := fun cached => by
    rw [(order.perm _).mem_iff]
    exact AList.mem_lookup_iff.symm
  have hnodup : ((order.order s.cache.entries).map Sigma.fst).Nodup :=
    ((order.perm _).map _).nodup_iff.mpr s.cache.nodupKeys
  have hkeys : ∀ outpoint, outpoint ∈ (order.order s.cache.entries).map Sigma.fst ↔
      outpoint ∈ s.cache := fun outpoint => ((order.perm _).map _).mem_iff
  have hentries : ∀ cached ∈ order.order s.cache.entries,
      Index.resolve config (s.tables.outpointToUtxoEntry cached.1) cached.1 cached.2 =
          some ((entryAt config chain ledger cached.1).getD []) ∧
        entryScript config ((entryAt config chain ledger cached.1).getD []) =
          if config.indexAddresses then some (scriptAt chain cached.1) else none := by
    intro cached hcached
    obtain ⟨hresolve, hsome⟩ := h.resolve ((hmem cached).mp hcached)
    obtain ⟨entry, hentry⟩ := Option.isSome_iff_exists.mp hsome
    rw [hresolve, hentry]
    exact ⟨rfl, entryScript_entryAt hentry⟩
  have hputtable : config.indexAddresses = true → (Committable config committed.1 chain ↔
      ∀ cached ∈ order.order s.cache.entries, Puttable (scriptAt chain cached.1)) := by
    intro haddresses
    rw [h.committable_iff hconserved haddresses]
    constructor
    · intro hall cached hcached
      exact hall cached.1 ((hkeys _).mp (List.mem_map_of_mem hcached))
    · intro hall outpoint hin
      obtain ⟨cached, hcached, rfl⟩ := List.mem_map.mp ((hkeys outpoint).mpr hin)
      exact hall cached hcached
  unfold Index.commit
  rcases @foldlM_commitEntry _ (fun outpoint => (entryAt config chain ledger outpoint).getD [])
    _ _ _ hnodup hentries with ⟨hput, hok⟩ | ⟨haddresses, ⟨cached, hcached, hput⟩, err, herr⟩
  · refine .inl ⟨fun haddresses => ?_, _, by rw [hok]; rfl, h.putAll hconserved hkeys, rfl, rfl⟩
    exact (hputtable haddresses).mpr (hput haddresses) haddresses
  · refine .inr ⟨fun hcommittable => ?_, err, by rw [herr]; rfl⟩
    exact hput ((hputtable haddresses).mp hcommittable cached hcached)

end Commit

end Lord.Index
