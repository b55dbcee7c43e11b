import Lord.Calendar.Service

/-! The order of a drain: the queued digests of the priority list come first, then the oldest of the
others, and the rest of the queue stays in its order. -/

namespace Lord.Calendar.DigestQueue

/-- The digests of a priority list that are queued, in the order of the list and each once. -/
def queuedOf (pending priority : List Bytes32) : List Bytes32 :=
  (priority.filter (· ∈ pending)).eraseDups

/-- The first of them, at most `max`. -/
def preferred (pending priority : List Bytes32) (max : Nat) : List Bytes32 :=
  (queuedOf pending priority).take max

/-- The queue without these digests. -/
def others (pending digests : List Bytes32) : List Bytes32 := pending.filter (· ∉ digests)

theorem queuedOf_cons_of_mem {pending : List Bytes32} {digest : Bytes32} {rest : List Bytes32}
    (hnodup : pending.Nodup) (h : digest ∈ pending) :
    queuedOf pending (digest :: rest) = digest :: queuedOf (pending.erase digest) rest := by
  have hfilter : (rest.filter (· ∈ pending)).filter (fun d => !d == digest) =
      rest.filter (· ∈ pending.erase digest) := by
    rw [List.filter_filter]
    refine List.filter_congr fun d _ => ?_
    by_cases heq : d = digest <;> simp [hnodup.mem_erase_iff, Subtype.val_inj, heq]
  rw [queuedOf, List.filter_cons_of_pos (by simpa using h), List.eraseDups_cons, hfilter]
  rfl

theorem queuedOf_cons_of_not_mem {pending : List Bytes32} {digest : Bytes32} {rest : List Bytes32}
    (h : digest ∉ pending) : queuedOf pending (digest :: rest) = queuedOf pending rest := by
  rw [queuedOf, List.filter_cons_of_neg (by simpa using h), queuedOf]

theorem others_nil (pending : List Bytes32) : others pending [] = pending := by
  simp [others]

theorem others_cons {pending : List Bytes32} (hnodup : pending.Nodup) (digest : Bytes32)
    (digests : List Bytes32) :
    others pending (digest :: digests) = others (pending.erase digest) digests := by
  rw [hnodup.erase_eq_filter, others, others, List.filter_filter]
  refine List.filter_congr fun d _ => ?_
  by_cases heq : d = digest <;> simp [heq]

/-- The loop over the priority list takes the preferred digests, and leaves the others. -/
theorem drainPriority_eq {pending : List Bytes32} (hnodup : pending.Nodup)
    (batch priority : List Bytes32) (max : Nat) :
    drainPriority ⟨pending⟩ batch max priority =
      (batch ++ preferred pending priority (max - batch.length),
        ⟨others pending (preferred pending priority (max - batch.length))⟩) := by
  induction priority generalizing pending batch with
  | nil => simp [drainPriority, preferred, queuedOf, others_nil]
  | cons digest rest ih =>
    rw [drainPriority]
    by_cases hfull : max ≤ batch.length
    · have hzero : max - batch.length = 0 := by omega
      simp [hfull, hzero, preferred, others_nil]
    rw [if_neg hfull]
    by_cases hmem : digest ∈ pending
    · have hroom : max - batch.length = (max - (batch ++ [digest]).length) + 1 := by
        rw [List.length_append, List.length_singleton]
        omega
      rw [if_pos hmem, ih (hnodup.erase digest), hroom, preferred, preferred,
        queuedOf_cons_of_mem hnodup hmem, List.take_succ_cons, others_cons hnodup,
        List.append_assoc]
      rfl
    · rw [if_neg hmem, ih hnodup, preferred, preferred, queuedOf_cons_of_not_mem hmem]

variable {pending : List Bytes32}

/-- A drain takes the preferred digests and then the oldest of the others. -/
theorem drainBatchPrioritized_eq (hnodup : pending.Nodup) (priority : List Bytes32) (max : Nat) :
    drainBatchPrioritized ⟨pending⟩ priority max =
      (preferred pending priority max ++
          (others pending (preferred pending priority max)).take
            (max - (preferred pending priority max).length),
        ⟨(others pending (preferred pending priority max)).drop
          (max - (preferred pending priority max).length)⟩) := by
  rw [drainBatchPrioritized, drainPriority_eq hnodup]
  rfl

theorem mem_of_mem_preferred {priority : List Bytes32} {max : Nat} {digest : Bytes32}
    (h : digest ∈ preferred pending priority max) : digest ∈ pending ∧ digest ∈ priority := by
  have hmem := List.mem_of_mem_take h
  rw [queuedOf, List.mem_eraseDups, List.mem_filter] at hmem
  exact ⟨by simpa using hmem.2, hmem.1⟩

theorem nodup_eraseDups (digests : List Bytes32) : digests.eraseDups.Nodup := by
  induction hlength : digests.length using Nat.strong_induction_on generalizing digests with
  | _ n ih =>
    cases digests with
    | nil => exact List.nodup_nil
    | cons digest rest =>
      have hshort : (rest.filter fun d => !d == digest).length < n := by
        have hle := List.length_filter_le (fun d => !d == digest) rest
        rw [List.length_cons] at hlength
        omega
      rw [List.eraseDups_cons, List.nodup_cons]
      refine ⟨fun hmem => ?_, ih _ hshort _ rfl⟩
      rw [List.mem_eraseDups, List.mem_filter] at hmem
      simp at hmem

theorem nodup_preferred (priority : List Bytes32) (max : Nat) :
    (preferred pending priority max).Nodup :=
  (nodup_eraseDups _).sublist (List.take_sublist _ _)

/-- Digests of the queue and the others make up the queue. -/
theorem append_others_perm (hnodup : pending.Nodup) {digests : List Bytes32}
    (hdigests : digests.Nodup) (hsub : ∀ digest ∈ digests, digest ∈ pending) :
    (digests ++ others pending digests).Perm pending := by
  refine (List.perm_ext_iff_of_nodup ?_ hnodup).mpr fun digest => ?_
  · refine List.nodup_append.mpr ⟨hdigests, hnodup.filter _, ?_⟩
    intro a ha b hb heq
    have hout := (List.mem_filter.mp hb).2
    simp [← heq, ha] at hout
  · rw [List.mem_append, others, List.mem_filter]
    constructor
    · rintro (hmem | ⟨hmem, -⟩)
      · exact hsub digest hmem
      · exact hmem
    · intro hmem
      by_cases hin : digest ∈ digests
      · exact .inl hin
      · exact .inr ⟨hmem, by simpa using hin⟩

/-- A batch and the rest of the queue partition the queue of before, by priority and then by age. -/
structure Partitions (pending priority : List Bytes32) (max : Nat) (batch rest : List Bytes32) :
    Prop where
  length : batch.length = min max pending.length
  perm : (batch ++ rest).Perm pending
  order : ∃ oldest, batch = preferred pending priority max ++ oldest ∧
    oldest ++ rest = others pending (preferred pending priority max)
  keeps : rest.Sublist pending

/-- A prioritized drain partitions the queue. -/
theorem drainBatchPrioritized_partitions (hnodup : pending.Nodup) (priority : List Bytes32)
    (max : Nat) :
    Partitions pending priority max (drainBatchPrioritized ⟨pending⟩ priority max).1
      (drainBatchPrioritized ⟨pending⟩ priority max).2.pending := by
  rw [drainBatchPrioritized_eq hnodup]
  generalize hpreferred : preferred pending priority max = first
  have hperm : (first ++ others pending first).Perm pending := by
    rw [← hpreferred]
    exact append_others_perm hnodup (nodup_preferred priority max) fun _ h =>
      (mem_of_mem_preferred h).1
  have hlength : first.length + (others pending first).length = pending.length := by
    rw [← List.length_append, hperm.length_eq]
  have hmax : first.length ≤ max := by
    rw [← hpreferred, preferred, List.length_take]
    exact Nat.min_le_left _ _
  refine ⟨?_, ?_, ⟨(others pending first).take (max - first.length), ?_, ?_⟩, ?_⟩
  · rw [List.length_append, List.length_take]
    omega
  · rw [List.append_assoc, List.take_append_drop]
    exact hperm
  · rw [hpreferred]
  · rw [hpreferred, List.take_append_drop]
  · exact (List.drop_sublist _ _).trans List.filter_sublist

/-- A digest of one repeated byte. -/
def byteDigest (n : UInt8) : Bytes32 := Bytes32.replicate n

theorem drainBatchPrioritized_partitions_example :
    Partitions [byteDigest 1, byteDigest 2, byteDigest 3]
      [byteDigest 3, byteDigest 3, byteDigest 9] 2 [byteDigest 3, byteDigest 1] [byteDigest 2] :=
  drainBatchPrioritized_partitions (by decide +kernel) [byteDigest 3, byteDigest 3, byteDigest 9] 2

end Lord.Calendar.DigestQueue
