import Lord.Lib.Runs
import Mathlib.Logic.Function.Basic

/-! Parties that share a state, each with a state of its own, and take their steps in any order.  What
holds of a party's own state and is kept by its steps holds on, whatever the others do. -/

namespace Lord.Interleaving

/-- A shared state and the state of each party. -/
structure World (ι σ τ : Type*) where
  shared : σ
  party : ι → τ

variable {ι σ τ : Type*} [DecidableEq ι]

/-- The step of a party. -/
def step (next : ι → σ → τ → σ × τ) (w : World ι σ τ) (i : ι) : World ι σ τ :=
  ⟨(next i w.shared (w.party i)).1, Function.update w.party i (next i w.shared (w.party i)).2⟩

variable {next : ι → σ → τ → σ × τ} {w : World ι σ τ} {i j : ι} {calls : List ι}

theorem step_shared : (step next w i).shared = (next i w.shared (w.party i)).1 := rfl

@[simp] theorem step_party_self : (step next w i).party i = (next i w.shared (w.party i)).2 := by
  simp [step]

theorem step_party_of_ne (h : j ≠ i) : (step next w i).party j = w.party j := by
  simp [step, h]

/-- A property of all parties after a step: of the one that moved, and of the others as they were. -/
theorem forall_step {p : ι → τ → Prop} :
    (∀ j, p j ((step next w i).party j)) ↔
      p i (next i w.shared (w.party i)).2 ∧ ∀ j, j ≠ i → p j (w.party j) := by
  constructor
  · intro h
    refine ⟨by simpa using h i, fun j hj => ?_⟩
    rw [← step_party_of_ne hj]
    exact h j
  · rintro ⟨hself, hothers⟩ j
    by_cases hj : j = i
    · subst hj
      rwa [step_party_self]
    · rw [step_party_of_ne hj]
      exact hothers j hj

/-- What a party's steps keep holds on. -/
theorem step_keeps {p : τ → Prop} (h : ∀ s t, p t → p (next i s t).2) (hp : p (w.party i)) (j : ι) :
    p ((step next w j).party i) := by
  by_cases hj : i = j
  · subst hj
    rw [step_party_self]
    exact h _ _ hp
  · rwa [step_party_of_ne hj]

/-- One party writes the shared state, and what the others know of it stays true. -/
theorem led_step (next : ι → σ → τ → σ × τ) (i : ι) {leads knows : σ → τ → Prop} {leader : ι}
    (hleads : leads w.shared (w.party leader))
    (hknow : ∀ j, j ≠ leader → knows w.shared (w.party j))
    (hleader : leads (next leader w.shared (w.party leader)).1 (next leader w.shared (w.party leader)).2 ∧
      ∀ t, knows w.shared t → knows (next leader w.shared (w.party leader)).1 t)
    (hother : i ≠ leader → (next i w.shared (w.party i)).1 = w.shared ∧
      knows w.shared (next i w.shared (w.party i)).2) :
    leads (step next w i).shared ((step next w i).party leader) ∧
      ∀ j, j ≠ leader → knows (step next w i).shared ((step next w i).party j) := by
  by_cases hi : i = leader
  · subst hi
    refine ⟨?_, fun j hj => ?_⟩
    · rw [step_shared, step_party_self]
      exact hleader.1
    · rw [step_shared, step_party_of_ne hj]
      exact hleader.2 _ (hknow j hj)
  · obtain ⟨hsame, hknows⟩ := hother hi
    refine ⟨?_, fun j hj => ?_⟩
    · rw [step_shared, hsame, step_party_of_ne (Ne.symm hi)]
      exact hleads
    · rw [step_shared, hsame]
      by_cases hji : j = i
      · subst hji
        rwa [step_party_self]
      · rw [step_party_of_ne hji]
        exact hknow j hj

/-- A measure of what is left for a party, which each of its steps takes down, is taken down by its
share of the run. -/
theorem left_run {left : τ → Nat} (h : ∀ s t, left (next i s t).2 ≤ left t - 1) :
    left ((Runs.run (step next) w calls).party i) ≤ left (w.party i) - calls.count i := by
  induction calls generalizing w with
  | nil => exact Nat.le_refl _
  | cons j rest ih =>
    refine Nat.le_trans ih ?_
    by_cases hj : i = j
    · subst hj
      have := h w.shared (w.party i)
      rw [step_party_self, List.count_cons_self]
      omega
    · rw [step_party_of_ne hj, List.count_cons_of_ne (Ne.symm hj)]

/-! ### Calls that return -/

variable {κ ε : Type*} (result : τ → Option (Except ε κ)) (stored : σ → Option κ)

/-- Every call has returned. -/
def Finished (w : World ι σ τ) : Prop := ∀ i, (result (w.party i)).isSome

/-- Every call has returned the value that is stored. -/
def Agreed (w : World ι σ τ) : Prop :=
  ∀ i, ∃ value, result (w.party i) = some (.ok value) ∧ stored w.shared = some value

/-- A call has failed. -/
def Failed (w : World ι σ τ) : Prop := ∃ i err, result (w.party i) = some (.error err)

variable {result stored}

omit [DecidableEq ι] in
theorem Failed.not_agreed (h : Failed result w) : ¬Agreed result stored w := by
  obtain ⟨i, err, herr⟩ := h
  intro hagreed
  obtain ⟨value, hvalue, -⟩ := hagreed i
  rw [herr] at hvalue
  cases hvalue

/-- A call that has failed stays so. -/
theorem Failed.step (hends : ∀ i s t r, result t = some r → result (next i s t).2 = some r)
    (h : Failed result w) (j : ι) : Failed result (step next w j) := by
  obtain ⟨i, err, herr⟩ := h
  exact ⟨i, err, step_keeps (p := fun t => result t = some (.error err)) (fun s t => hends i s t _)
    herr j⟩

/-- Two calls each go on to return a value of their own. -/
def Rivals (owns : ι → τ → Prop) (w : World ι σ τ) : Prop :=
  ∃ i j, i ≠ j ∧ owns i (w.party i) ∧ owns j (w.party j)

theorem Rivals.step {owns : ι → τ → Prop} (hkeeps : ∀ i s t, owns i t → owns i (next i s t).2)
    (h : Rivals owns w) (k : ι) : Rivals owns (step next w k) := by
  obtain ⟨i, j, hne, hi, hj⟩ := h
  exact ⟨i, j, hne, step_keeps (hkeeps i) hi k, step_keeps (hkeeps j) hj k⟩

omit [DecidableEq ι] in
/-- Two values are not both stored when they are different. -/
theorem Rivals.not_agreed {owns : ι → τ → Prop} {own : ι → κ} (hown : own.Injective)
    (howns : ∀ i t value, owns i t → result t = some (.ok value) → value = own i)
    (h : Rivals owns w) : ¬Agreed result stored w := by
  obtain ⟨i, j, hne, hi, hj⟩ := h
  intro hagreed
  obtain ⟨first, hfirst, hstored⟩ := hagreed i
  obtain ⟨second, hsecond, hstored'⟩ := hagreed j
  rw [howns i _ first hi hfirst] at hstored
  rw [howns j _ second hj hsecond, hstored] at hstored'
  exact hne (hown (Option.some.inj hstored'))

/-- Every call returns when it gets as many steps as it has left. -/
theorem finished_of_turns (left : τ → Nat) (h : ∀ i s t, left (next i s t).2 ≤ left t - 1)
    (hdone : ∀ t, left t = 0 → (result t).isSome) (hturns : ∀ i, left (w.party i) ≤ calls.count i) :
    Finished result (Runs.run (step next) w calls) := by
  intro i
  apply hdone
  have hleft : left ((Runs.run (step next) w calls).party i) ≤ left (w.party i) - calls.count i :=
    left_run (h i)
  have hcount := hturns i
  omega

variable {P B : World ι σ τ → Prop} {Q : World ι σ τ → ι → Prop}

/-- Calls that have all returned agree when every step of the run met a condition that keeps an invariant
under which they do. -/
theorem agreed_of_eachStep (hstep : ∀ w i, P w → Q w i → P (step next w i))
    (hagreed : ∀ w, P w → Finished result w → Agreed result stored w) (hw : P w)
    (hfinished : Finished result (Runs.run (step next) w calls))
    (h : Runs.EachStep (step next) Q w calls) :
    Agreed result stored (Runs.run (step next) w calls) :=
  hagreed _ (Runs.always_of_eachStep (fun w i _ => hstep w i) hw h calls List.prefix_rfl) hfinished

/-- Calls agree only then, where a step that does not meet it leads to where they never will. -/
theorem eachStep_of_agreed (hstep : ∀ w i, P w → Q w i → P (step next w i))
    (hlost : ∀ w i, P w → ¬Q w i → B (step next w i)) (hdoomed : ∀ w i, B w → B (step next w i))
    (hnever : ∀ w, B w → ¬Agreed result stored w) (hw : P w)
    (h : Agreed result stored (Runs.run (step next) w calls)) :
    Runs.EachStep (step next) Q w calls :=
  Runs.eachStep_of_not_doomed (fun w i _ => hstep w i) (fun w i _ => hlost w i) (fun w i _ => hdoomed w i) hw
    fun hB => hnever _ hB h

end Lord.Interleaving
