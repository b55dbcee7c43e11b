import Lord.Lib.Runs

/-! The calls that a run has behind it.  What a state holds is traced back to the call that wrote it,
with the calls in front of that one. -/

namespace Lord.History

open Runs

variable {S C : Type*}

/-- Some call of the list meets the condition, which sees the calls in front of it as well. -/
def Occurs (Q : List C → C → Prop) (calls : List C) : Prop :=
  ∃ front call, front ++ [call] <+: calls ∧ Q front call

variable {Q Q' : List C → C → Prop} {calls front : List C} {call : C}

theorem not_occurs_nil : ¬Occurs Q [] := by
  rintro ⟨front, call, hwithin, -⟩
  simp at hwithin

theorem occurs_append_singleton :
    Occurs Q (calls ++ [call]) ↔ Occurs Q calls ∨ Q calls call := by
  constructor
  · rintro ⟨front, first, hwithin, hfirst⟩
    rcases List.prefix_concat_iff.mp hwithin with heq | hwithin
    · obtain ⟨rfl, hlast⟩ := List.append_inj' heq rfl
      cases hlast
      exact .inr hfirst
    · exact .inl ⟨front, first, hwithin, hfirst⟩
  · rintro (⟨front, first, hwithin, hfirst⟩ | hlast)
    · exact ⟨front, first, hwithin.trans (List.prefix_append calls [call]), hfirst⟩
    · exact ⟨calls, call, List.prefix_rfl, hlast⟩

theorem Occurs.append (h : Occurs Q calls) (call : C) : Occurs Q (calls ++ [call]) :=
  occurs_append_singleton.mpr (.inl h)

theorem Occurs.last (h : Q calls call) : Occurs Q (calls ++ [call]) :=
  occurs_append_singleton.mpr (.inr h)

theorem Occurs.of_prefix (h : Occurs Q front) (hwithin : front <+: calls) : Occurs Q calls := by
  obtain ⟨before, first, hfront, hfirst⟩ := h
  exact ⟨before, first, hfront.trans hwithin, hfirst⟩

theorem Occurs.imp (h : Occurs Q calls) (himp : ∀ front call, Q front call → Q' front call) :
    Occurs Q' calls := by
  obtain ⟨front, first, hwithin, hfirst⟩ := h
  exact ⟨front, first, hwithin, himp front first hfirst⟩

/-- A condition that no call meets behind one that met it is met by one call at most. -/
theorem front_eq_of_not_occurs (hnot : ∀ front call, Q front call → ¬Occurs Q front)
    {front' : List C} {call' : C} (hwithin : front ++ [call] <+: calls)
    (hwithin' : front' ++ [call'] <+: calls) (h : Q front call) (h' : Q front' call') :
    front = front' := by
  rcases List.prefix_or_prefix_of_prefix hwithin hwithin' with hle | hle
  · rcases List.prefix_concat_iff.mp hle with heq | hle
    · exact (List.append_inj' heq rfl).1
    · exact absurd ⟨front, call, hle, h⟩ (hnot front' call' h')
  · rcases List.prefix_concat_iff.mp hle with heq | hle
    · exact (List.append_inj' heq rfl).1.symm
    · exact absurd ⟨front', call', hle, h'⟩ (hnot front call h)

/-- What relates a state to the calls behind it is kept by whole runs when it is by every step. -/
theorem run_induction {exec : S → C → S} {P : List C → S → Prop} {s : S} (hs : P [] s)
    (hstep : ∀ front call, P front (run exec s front) →
      P (front ++ [call]) (exec (run exec s front) call)) (calls : List C) :
    P calls (run exec s calls) := by
  induction calls using List.reverseRecOn with
  | nil => exact hs
  | append_singleton front call ih =>
    rw [run_append]
    exact hstep front call ih

/-- What a run puts out comes from one of its calls, in the state in front of it. -/
theorem mem_emitted {A : Type*} {exec : S → C → S} {emit : S → C → List A} {s : S} {a : A} :
    a ∈ emitted exec emit s calls ↔ Occurs (fun front call => a ∈ emit (run exec s front) call) calls := by
  induction calls using List.reverseRecOn with
  | nil => exact iff_of_false List.not_mem_nil not_occurs_nil
  | append_singleton front call ih =>
    rw [emitted_append, List.mem_append, ih, occurs_append_singleton, emitted, emitted, List.append_nil]

end Lord.History
