import Mathlib.Data.List.Infix

/-! Runs of a deterministic machine.  When a step keeps an invariant under a condition on the state
in front of it, a run whose steps all meet the condition keeps it, and so does no other. -/

namespace Lord.Runs

variable {S C : Type*} (exec : S → C → S)

/-- The state after a list of calls. -/
def run (s : S) (calls : List C) : S := calls.foldl exec s

/-- The property holds of every state of the run. -/
def Always (P : S → Prop) (s : S) (calls : List C) : Prop :=
  ∀ front, front <+: calls → P (run exec s front)

/-- The condition holds of every call of the run, in the state in front of it. -/
def EachStep (Q : S → C → Prop) (s : S) (calls : List C) : Prop :=
  ∀ front call, front ++ [call] <+: calls → Q (run exec s front) call

variable {exec} {P : S → Prop} {Q : S → C → Prop} {s : S} {call : C} {calls : List C}

theorem run_append (s : S) (calls : List C) (last : C) :
    run exec s (calls ++ [last]) = exec (run exec s calls) last := by
  simp [run]

theorem always_nil : Always exec P s [] ↔ P s := by
  simp [Always, run]

theorem always_cons :
    Always exec P s (call :: calls) ↔ P s ∧ Always exec P (exec s call) calls := by
  constructor
  · intro h
    refine ⟨h [] (List.nil_prefix), fun front hfront => ?_⟩
    exact h (call :: front) (List.cons_prefix_cons.mpr ⟨rfl, hfront⟩)
  · rintro ⟨hs, hrest⟩ front hfront
    cases front with
    | nil => exact hs
    | cons first front =>
      obtain ⟨rfl, htail⟩ := List.cons_prefix_cons.mp hfront
      exact hrest front htail

theorem eachStep_nil : EachStep exec Q s [] := by
  intro front call h
  simp at h

theorem eachStep_cons :
    EachStep exec Q s (call :: calls) ↔ Q s call ∧ EachStep exec Q (exec s call) calls := by
  constructor
  · intro h
    refine ⟨h [] call (by simp), fun front c hfront => ?_⟩
    exact h (call :: front) c (List.cons_prefix_cons.mpr ⟨rfl, hfront⟩)
  · rintro ⟨hs, hrest⟩ front c hfront
    cases front with
    | nil =>
      obtain ⟨rfl, -⟩ := List.cons_prefix_cons.mp hfront
      exact hs
    | cons first front =>
      obtain ⟨rfl, htail⟩ := List.cons_prefix_cons.mp hfront
      exact hrest front c htail

/-- A condition that is decidable of each step is decidable of a run. -/
def decidableEachStep [∀ s call, Decidable (Q s call)] (s : S) :
    (calls : List C) → Decidable (EachStep exec Q s calls)
  | [] => isTrue eachStep_nil
  | call :: calls =>
    have := decidableEachStep (exec s call) calls
    decidable_of_iff (Q s call ∧ EachStep exec Q (exec s call) calls) eachStep_cons.symm

instance [∀ s call, Decidable (Q s call)] (s : S) (calls : List C) :
    Decidable (EachStep exec Q s calls) := decidableEachStep s calls

/-- A run keeps an invariant exactly when every step of it does. -/
theorem always_iff (hstep : ∀ s call, P s → (P (exec s call) ↔ Q s call)) (hs : P s) :
    Always exec P s calls ↔ EachStep exec Q s calls := by
  induction calls generalizing s with
  | nil => exact iff_of_true (always_nil.mpr hs) eachStep_nil
  | cons call calls ih =>
    rw [always_cons, eachStep_cons, and_iff_right hs]
    constructor
    · intro h
      have hnext : P (exec s call) := h [] (List.nil_prefix)
      exact ⟨(hstep s call hs).mp hnext, (ih hnext).mp h⟩
    · rintro ⟨hcall, hrest⟩
      exact (ih ((hstep s call hs).mpr hcall)).mpr hrest

/-- The same where the steps of the run keep another invariant besides, at least as long as they
keep this one. -/
theorem always_iff_of_keeps {I : S → Prop}
    (hkeep : ∀ s, ∀ call ∈ calls, I s → P s → P (exec s call) → I (exec s call))
    (hstep : ∀ s, ∀ call ∈ calls, I s → P s → (P (exec s call) ↔ Q s call)) (hI : I s) (hs : P s) :
    Always exec P s calls ↔ EachStep exec Q s calls := by
  induction calls generalizing s with
  | nil => exact iff_of_true (always_nil.mpr hs) eachStep_nil
  | cons call calls ih =>
    have hfirst := hstep s call List.mem_cons_self hI hs
    have hrest : ∀ hP : P (exec s call), Always exec P (exec s call) calls ↔
        EachStep exec Q (exec s call) calls := fun hP =>
      ih (fun s c hc => hkeep s c (List.mem_cons_of_mem _ hc))
        (fun s c hc => hstep s c (List.mem_cons_of_mem _ hc))
        (hkeep s call List.mem_cons_self hI hs hP) hP
    rw [always_cons, eachStep_cons, and_iff_right hs]
    constructor
    · intro h
      have hP : P (exec s call) := h [] (List.nil_prefix)
      exact ⟨hfirst.mp hP, (hrest hP).mp h⟩
    · rintro ⟨hcall, hlater⟩
      exact (hrest (hfirst.mpr hcall)).mpr hlater

/-- An invariant that the steps of a run keep holds in every state of it. -/
theorem always_of_keeps (hkeep : ∀ s, ∀ call ∈ calls, P s → P (exec s call)) (hs : P s) :
    Always exec P s calls := by
  induction calls generalizing s with
  | nil => exact always_nil.mpr hs
  | cons call calls ih =>
    exact always_cons.mpr ⟨hs, ih (fun s c hc => hkeep s c (List.mem_cons_of_mem _ hc))
      (hkeep s call List.mem_cons_self hs)⟩

/-- A run whose steps meet a condition that keeps an invariant keeps it. -/
theorem always_of_eachStep (hstep : ∀ s, ∀ call ∈ calls, P s → Q s call → P (exec s call)) (hs : P s)
    (h : EachStep exec Q s calls) : Always exec P s calls := by
  induction calls generalizing s with
  | nil => exact always_nil.mpr hs
  | cons call calls ih =>
    obtain ⟨hcall, hrest⟩ := eachStep_cons.mp h
    exact always_cons.mpr ⟨hs, ih (fun s c hc => hstep s c (List.mem_cons_of_mem _ hc))
      (hstep s call List.mem_cons_self hs hcall) hrest⟩

/-- Where a step that does not meet the condition leads to states that lead to themselves only, a run that
does not end in one of them has met the condition. -/
theorem eachStep_of_not_doomed {B : S → Prop} (hstep : ∀ s, ∀ call ∈ calls, P s → Q s call → P (exec s call))
    (hlost : ∀ s, ∀ call ∈ calls, P s → ¬Q s call → B (exec s call))
    (hdoomed : ∀ s, ∀ call ∈ calls, B s → B (exec s call)) (hs : P s)
    (hend : ¬B (run exec s calls)) : EachStep exec Q s calls := by
  induction calls generalizing s with
  | nil => exact eachStep_nil
  | cons call calls ih =>
    by_cases hcall : Q s call
    · exact eachStep_cons.mpr ⟨hcall, ih (fun s c hc => hstep s c (List.mem_cons_of_mem _ hc))
        (fun s c hc => hlost s c (List.mem_cons_of_mem _ hc))
        (fun s c hc => hdoomed s c (List.mem_cons_of_mem _ hc)) (hstep s call List.mem_cons_self hs hcall)
        hend⟩
    · have hB := hlost s call List.mem_cons_self hs hcall
      have hkeep : Always exec B (exec s call) calls :=
        always_of_keeps (fun s c hc => hdoomed s c (List.mem_cons_of_mem _ hc)) hB
      exact absurd (hkeep calls List.prefix_rfl) hend

/-- Two conditions on steps that agree wherever an invariant holds agree on whole runs, when steps
that meet them keep the invariant. -/
theorem eachStep_congr {I : S → Prop} {Q' : S → C → Prop}
    (hstep : ∀ s call, I s → (Q s call ↔ Q' s call))
    (hkeep : ∀ s call, I s → Q s call → I (exec s call)) (hI : I s) :
    EachStep exec Q s calls ↔ EachStep exec Q' s calls := by
  induction calls generalizing s with
  | nil => exact iff_of_true eachStep_nil eachStep_nil
  | cons call calls ih =>
    rw [eachStep_cons, eachStep_cons, ← hstep s call hI]
    exact and_congr_right fun hcall => ih (hkeep s call hI hcall)

/-! ### What the steps put out -/

section

variable {A T : Type*} (exec) (emit : S → C → List A)

/-- What the steps of a run put out, in order. -/
def emitted (s : S) : List C → List A
  | [] => []
  | call :: calls => emit s call ++ emitted (exec s call) calls

variable {exec emit}

theorem emitted_append (s : S) (calls later : List C) :
    emitted exec emit s (calls ++ later) =
      emitted exec emit s calls ++ emitted exec emit (run exec s calls) later := by
  induction calls generalizing s with
  | nil => rfl
  | cons call calls ih =>
    rw [List.cons_append, emitted, ih, emitted, List.append_assoc]
    rfl

/-- A part of the state that takes what a step puts out as its own calls is behind all of them. -/
theorem run_part {p : S → T} {step : T → A → T}
    (hstep : ∀ s call, p (exec s call) = run step (p s) (emit s call)) (s : S) (calls : List C) :
    p (run exec s calls) = run step (p s) (emitted exec emit s calls) := by
  induction calls generalizing s with
  | nil => rfl
  | cons call calls ih =>
    calc p (run exec s (call :: calls))
        = run step (p (exec s call)) (emitted exec emit (exec s call) calls) := ih _
      _ = run step (p s) (emitted exec emit s (call :: calls)) := by
        rw [hstep, emitted, run, run, run, List.foldl_append]

end

end Lord.Runs
