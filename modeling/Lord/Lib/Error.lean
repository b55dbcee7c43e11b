import Mathlib.Data.Option.Basic

/-! Errors as a chain of messages, and the ways a call may end. -/

namespace Lord

/-- An error: the message in front and the causes beneath it. -/
structure Error where
  message : String
  causes : List String
  deriving Repr, DecidableEq

namespace Error

instance : Coe String Error := ⟨fun message => ⟨message, []⟩⟩

/-- The plain form of an error is its first message. -/
instance : ToString Error := ⟨Error.message⟩

/-- The alternate form of an error: every message of the chain. -/
def alternate (err : Error) : String := ": ".intercalate (err.message :: err.causes)

end Error

/-- A fallible result. -/
abbrev Result := Except Error

namespace Result

/-- `.context(..)`: a message in front of the chain. -/
def context {α : Type} (r : Result α) (message : String) : Result α :=
  match r with
  | .ok a => .ok a
  | .error err => .error ⟨message, err.message :: err.causes⟩

@[simp] theorem context_eq_ok {α : Type} {r : Result α} {message : String} {a : α} :
    r.context message = .ok a ↔ r = .ok a := by
  cases r <;> simp [context]

end Result

/-- `ok_or_else`: the value, or an error when there is none. -/
def okOr {ε α : Type} (o : Option α) (err : ε) : Except ε α :=
  match o with
  | some a => .ok a
  | none => .error err

@[simp] theorem okOr_eq_ok {ε α : Type} {o : Option α} {err : ε} {a : α} :
    okOr o err = .ok a ↔ o = some a := by
  cases o <;> simp [okOr]

theorem exists_of_isOk {ε α : Type} {x : Except ε α} (h : x.isOk = true) : ∃ a, x = .ok a := by
  cases x with
  | error e => cases h
  | ok a => exact ⟨a, rfl⟩

theorem ok_bind {ε α β : Type} (a : α) (f : α → Except ε β) : (Except.ok a >>= f) = f a := rfl

/-- A sequence of two fallible steps succeeds when both do. -/
theorem bind_eq_ok {ε α β : Type} {x : Except ε α} {f : α → Except ε β} {b : β} :
    (x >>= f) = .ok b ↔ ∃ a, x = .ok a ∧ f a = .ok b := by
  cases x with
  | error e => simp [bind, Except.bind]
  | ok a => simp [bind, Except.bind]

theorem mapError_eq_ok {ε ε' α : Type} {f : ε → ε'} {x : Except ε α} {a : α} :
    x.mapError f = .ok a ↔ x = .ok a := by
  cases x with
  | ok value => exact ⟨fun h => congrArg _ (Except.ok.inj h), fun h => congrArg _ (Except.ok.inj h)⟩
  | error err => constructor <;> intro h <;> cases h

theorem mapError_eq_error {ε ε' α : Type} {f : ε → ε'} {x : Except ε α} {err : ε'} :
    x.mapError f = .error err ↔ ∃ cause, x = .error cause ∧ f cause = err := by
  cases x with
  | ok value => simp [Except.mapError]
  | error cause => simp [Except.mapError]

/-- Steps that all succeed give their results in order. -/
theorem mapM_eq_ok {ε α β : Type} {f : α → Except ε β} {g : α → β} {xs : List α}
    (h : ∀ x ∈ xs, f x = .ok (g x)) : xs.mapM f = .ok (xs.map g) := by
  induction xs with
  | nil => rfl
  | cons x rest ih =>
    rw [List.mapM_cons, h x (by simp), ih fun y hy => h y (List.mem_cons_of_mem _ hy)]
    rfl

/-- Steps that all succeed succeed each. -/
theorem mapM_ok_mem {ε α β : Type} {f : α → Except ε β} {xs : List α} {ys : List β}
    (h : xs.mapM f = .ok ys) {x : α} (hx : x ∈ xs) : ∃ y, f x = .ok y := by
  induction xs generalizing ys with
  | nil => cases hx
  | cons first rest ih =>
    rw [List.mapM_cons] at h
    obtain ⟨y, hy, h⟩ := bind_eq_ok.mp h
    obtain ⟨others, hothers, -⟩ := bind_eq_ok.mp h
    rcases List.mem_cons.mp hx with rfl | hx
    · exact ⟨y, hy⟩
    · exact ih hothers hx

/-- Every result of steps that all succeed is the result of one of them. -/
theorem mem_of_mapM_ok {ε α β : Type} {f : α → Except ε β} {xs : List α} {ys : List β}
    (h : xs.mapM f = .ok ys) {y : β} (hy : y ∈ ys) : ∃ x ∈ xs, f x = .ok y := by
  induction xs generalizing ys with
  | nil =>
    cases h
    cases hy
  | cons first rest ih =>
    rw [List.mapM_cons] at h
    obtain ⟨head, hhead, h⟩ := bind_eq_ok.mp h
    obtain ⟨others, hothers, h⟩ := bind_eq_ok.mp h
    cases h
    rcases List.mem_cons.mp hy with rfl | hy
    · exact ⟨first, List.mem_cons_self, hhead⟩
    · obtain ⟨x, hx, hfx⟩ := ih hothers hy
      exact ⟨x, List.mem_cons_of_mem _ hx, hfx⟩

/-- When each step has one result, so has the sequence. -/
theorem mapM_ok_map {ε α β : Type} {f : α → Except ε β} {g : α → β}
    (hg : ∀ x y, f x = .ok y → y = g x) {xs : List α} {ys : List β} (h : xs.mapM f = .ok ys) :
    ys = xs.map g := by
  have hall : ∀ x ∈ xs, f x = .ok (g x) := by
    intro x hx
    obtain ⟨y, hy⟩ := mapM_ok_mem h hx
    rw [hy, hg x y hy]
  rw [mapM_eq_ok hall] at h
  exact (Except.ok.inj h).symm

/-- How a call that may also panic ends when it does not return. -/
inductive Fault where
  | err (err : Error)
  | panic (message : String)
  deriving Repr, DecidableEq

/-- The end of a call that may also panic. -/
abbrev Outcome := Except Fault

/-- A fallible result as the end of a call. -/
def Result.outcome {α : Type} (r : Result α) : Outcome α :=
  match r with
  | .ok a => .ok a
  | .error err => .error (.err err)

@[simp] theorem Result.outcome_eq_ok {α : Type} {r : Result α} {a : α} :
    r.outcome = .ok a ↔ r = .ok a := by
  cases r <;> simp [outcome]

end Lord
