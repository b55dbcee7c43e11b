import Lord.Index.IndexRuns

/-! The address index is exact after every commit, but a commit only succeeds when LMDB takes the
script pubkeys of the new outputs as keys. -/

namespace Lord.Index

open Bitcoin Ordinals

/-- A script pubkey has an outpoint when the entry of the outpoint has the script pubkey. -/
def ScriptsExact (config : IndexConfig) (tables : Tables) : Prop :=
  ∀ script outpoint, tables.scriptPubkeyToOutpoint script outpoint = true ↔
    ∃ entry, tables.outpointToUtxoEntry outpoint = some entry ∧
      entryScript config entry = some script

/-- Every commit of the run succeeds and leaves exact addresses, and nothing panics. -/
structure AlwaysCommittable (config : IndexConfig) (events : List Event) : Prop where
  commits : ∀ front order, front ++ [.commit order] <+: events →
    ∃ s, runEvents config .start (front ++ [.commit order]) = .ok s ∧ ScriptsExact config s.tables
  no_panic : ∀ front message, front <+: events →
    runEvents config .start front ≠ .error (.panic message)

section Runs

variable {config : IndexConfig} {events : List Event}

theorem applyBlocks_front {front : List Event} (h : front <+: events)
    (hvalid : (applyBlocks (eventBlocks events)).isSome = true) :
    (applyBlocks (eventBlocks front)).isSome = true := by
  induction events using List.reverseRecOn with
  | nil => rwa [List.prefix_nil.mp h]
  | append_singleton events event ih =>
    rcases List.prefix_concat_iff.mp h with rfl | h
    · exact hvalid
    · refine ih h ?_
      cases event with
      | commit order => rwa [eventBlocks_concat_commit] at hvalid
      | block block =>
        rw [eventBlocks_concat_block, applyBlocks_concat] at hvalid
        cases hfront : applyBlocks (eventBlocks events) with
        | some _ => rfl
        | none =>
          rw [hfront] at hvalid
          cases hvalid

/-- A run whose commits all put what LMDB takes reaches its end. -/
theorem indexed_of_committable (hfull : (config.indexAddresses || config.indexSats) = true)
    (hvalid : (applyBlocks (eventBlocks events)).isSome = true)
    (hcommits : ∀ front order, front ++ [.commit order] <+: events →
      Committable config (chainAfter (committedEvents front)) (chainAfter front)) :
    ∃ s, runEvents config .start events = .ok s ∧ Indexed config events s := by
  induction events using List.reverseRecOn with
  | nil => exact ⟨_, rfl, indexed_start⟩
  | append_singleton events event ih =>
    have hbegin : events <+: events ++ [event] := List.prefix_append _ _
    have hbefore := applyBlocks_front hbegin hvalid
    obtain ⟨s, hrun, h⟩ := ih hbefore fun front order hfront =>
      hcommits front order (hfront.trans hbegin)
    rw [runEvents_concat, hrun]
    cases event with
    | block block =>
      rw [eventBlocks_concat_block, applyBlocks_concat, h.valid] at hvalid
      obtain ⟨chain, happly⟩ := Option.isSome_iff_exists.mp hvalid
      exact h.block hfull happly
    | commit order =>
      rcases h.commit order with ⟨-, hcommit⟩ | ⟨hnot, -⟩
      · exact hcommit
      · exact absurd (hcommits events order (List.prefix_refl _)) hnot

end Runs

/-- The addresses of a run over valid blocks are exact and committable when, at each of its commits,
the outputs that came since the last one have script pubkeys of 1 to 511 bytes and, with sats, the
coinbases left nothing over, and in no other case. -/
theorem alwaysCommittable_iff (config : IndexConfig) (haddresses : config.indexAddresses = true)
    (events : List Event) (hvalid : (applyBlocks (eventBlocks events)).isSome = true) :
    AlwaysCommittable config events ↔
      ∀ front order, front ++ [.commit order] <+: events →
        Committable config (chainAfter (committedEvents front)) (chainAfter front) := by
  have hfull : (config.indexAddresses || config.indexSats) = true := by simp [haddresses]
  constructor
  · intro h front order hfront
    have hbefore := applyBlocks_front ((List.prefix_append front [.commit order]).trans hfront) hvalid
    obtain ⟨s, hrun, -⟩ := h.commits front order hfront
    rw [runEvents_concat] at hrun
    obtain ⟨before, hfrontRun, hcommit⟩ := bind_eq_ok.mp hrun
    rcases indexed_run hfull hbefore with ⟨s', hrun', h'⟩ | ⟨-, err, hrun'⟩
    · obtain rfl := Except.ok.inj (hfrontRun.symm.trans hrun')
      rcases h'.commit order with ⟨hcommittable, -⟩ | ⟨-, err, herr⟩
      · exact hcommittable
      · cases hcommit.symm.trans herr
    · cases hfrontRun.symm.trans hrun'
  · intro hcommits
    constructor
    · intro front order hfront
      obtain ⟨s, hrun, h⟩ := indexed_of_committable hfull (applyBlocks_front hfront hvalid)
        fun front' order' hfront' => hcommits front' order' (hfront'.trans hfront)
      exact ⟨s, hrun, h.view.scripts⟩
    · intro front message hfront
      obtain ⟨s, hrun, -⟩ := indexed_of_committable hfull (applyBlocks_front hfront hvalid)
        fun front' order' hfront' => hcommits front' order' (hfront'.trans hfront)
      rw [hrun]
      simp

/-- With addresses alone the example is committed. -/
theorem alwaysCommittable_block :
    AlwaysCommittable ⟨false, true⟩ exampleEvents ↔
      ∀ front order, front ++ [.commit order] <+: exampleEvents →
        Committable ⟨false, true⟩ (chainAfter (committedEvents front)) (chainAfter front) :=
  alwaysCommittable_iff ⟨false, true⟩ rfl exampleEvents (by decide +kernel)

/-- An output with an empty script pubkey is valid, and the commit after it fails. -/
theorem not_alwaysCommittable :
    (applyBlocks (eventBlocks [.block (coinbaseBlock 1 [⟨5000000000, []⟩]),
        .commit ⟨id, fun _ => .refl _⟩])).isSome = true ∧
      ¬AlwaysCommittable ⟨false, true⟩ [.block (coinbaseBlock 1 [⟨5000000000, []⟩]),
        .commit ⟨id, fun _ => .refl _⟩] := by
  refine ⟨by decide +kernel, fun h => ?_⟩
  obtain ⟨s, hrun, -⟩ := h.commits [.block (coinbaseBlock 1 [⟨5000000000, []⟩])]
    ⟨id, fun _ => .refl _⟩ (List.prefix_refl _)
  have hfails : (runEvents ⟨false, true⟩ .start [.block (coinbaseBlock 1 [⟨5000000000, []⟩]),
      .commit ⟨id, fun _ => .refl _⟩]).isOk = false := by decide +kernel
  rw [List.singleton_append] at hrun
  rw [hrun] at hfails
  cases hfails

end Lord.Index
