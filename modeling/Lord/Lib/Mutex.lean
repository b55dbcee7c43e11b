import Lord.Lib.Error

/-! Calls behind one mutex that is not reentrant: a call that locks it while it holds it already waits
forever.  A guard that a panic drops frees the mutex; that it also poisons it, so that each later lock
panics in its turn, is left out. -/

namespace Lord

/-- A mutex and what it guards. -/
structure Mutex (σ : Type) where
  held : Bool
  content : σ

/-- How a call on a mutex ends: with an outcome, or waiting for a lock that its own caller holds. -/
inductive Ending (α : Type) where
  | done (outcome : Outcome α)
  | waits

/-- A call on a mutex. -/
def Guarded (σ α : Type) : Type := Mutex σ → Ending α × Mutex σ

namespace Guarded

variable {σ α β : Type}

instance : Monad (Guarded σ) where
  pure a := fun m => (.done (.ok a), m)
  bind x f := fun m =>
    match x m with
    | (.done (.ok a), m) => f a m
    | (.done (.error fault), m) => (.done (.error fault), m)
    | (.waits, m) => (.waits, m)

/-- A step that needs no lock. -/
def lift (outcome : Outcome α) : Guarded σ α := fun m => (.done outcome, m)

/-- What the guard of the caller reads. -/
def read : Guarded σ σ := fun m => (.done (.ok m.content), m)

/-- What the guard of the caller writes. -/
def write (content : σ) : Guarded σ Unit := fun m => (.done (.ok ()), { m with content })

/-- A scope with a guard, which is dropped at its end however it ends. -/
def lock (body : Guarded σ α) : Guarded σ α := fun m =>
  if m.held then
    (.waits, m)
  else
    match body { m with held := true } with
    | (.done outcome, m) => (.done outcome, { m with held := false })
    | (.waits, m) => (.waits, m)

/-! ### Sequences -/

variable {x : Guarded σ α} {f : α → Guarded σ β} {m m' : Mutex σ}

theorem bind_of_ok {a : α} (h : x m = (.done (.ok a), m')) : (x >>= f) m = f a m' := by
  simp only [bind, h]

theorem bind_of_error {fault : Fault} (h : x m = (.done (.error fault), m')) :
    (x >>= f) m = (.done (.error fault), m') := by
  simp only [bind, h]

theorem bind_of_waits (h : x m = (.waits, m')) : (x >>= f) m = (.waits, m') := by
  simp only [bind, h]

@[simp] theorem read_bind (f : σ → Guarded σ β) : (read >>= f) m = f m.content m := rfl

@[simp] theorem lift_ok_bind (a : α) : (lift (.ok a) >>= f) m = f a m := rfl

@[simp] theorem pure_bind_apply (a : α) : (pure a >>= f) m = f a m := rfl

theorem lock_of_done {body : Guarded σ α} {content : σ} {outcome : Outcome α} {n : Mutex σ}
    (h : body ⟨true, content⟩ = (.done outcome, n)) :
    lock body ⟨false, content⟩ = (.done outcome, ⟨false, n.content⟩) := by
  simp [lock, h]

theorem lock_of_waits {body : Guarded σ α} {content : σ} (h : body ⟨true, content⟩ = (.waits, m')) :
    lock body ⟨false, content⟩ = (.waits, m') := by
  simp [lock, h]

theorem lock_of_held {body : Guarded σ α} (h : m.held = true) : lock body m = (.waits, m) := by
  simp [lock, h]

/-! ### Calls that lock nothing -/

/-- The call locks nothing, whether its caller holds the lock or not. -/
def Lockless (x : Guarded σ α) : Prop := ∀ m, (x m).1 ≠ .waits ∧ (x m).2.held = m.held

/-- The call takes the lock only while it is free, and leaves it free. -/
def FreesAt (x : Guarded σ α) (content : σ) : Prop :=
  (x ⟨false, content⟩).1 ≠ .waits ∧ (x ⟨false, content⟩).2.held = false

def Frees (x : Guarded σ α) : Prop := ∀ content, FreesAt x content

theorem lockless_pure (a : α) : Lockless (pure a : Guarded σ α) :=
  fun _ => ⟨fun h => (nomatch h), rfl⟩

theorem lockless_lift (outcome : Outcome α) : Lockless (lift outcome : Guarded σ α) :=
  fun _ => ⟨fun h => (nomatch h), rfl⟩

theorem lockless_read : Lockless (read : Guarded σ σ) := fun _ => ⟨fun h => (nomatch h), rfl⟩

theorem lockless_write (content : σ) : Lockless (write content) :=
  fun _ => ⟨fun h => (nomatch h), rfl⟩

theorem Lockless.bind (hx : Lockless x) (hf : ∀ a, Lockless (f a)) : Lockless (x >>= f) := by
  intro m
  obtain ⟨hwaits, hheld⟩ := hx m
  rcases hresult : x m with ⟨ending, m'⟩
  rw [hresult] at hwaits hheld
  cases ending with
  | waits => exact absurd rfl hwaits
  | done outcome =>
    cases outcome with
    | error fault =>
      rw [bind_of_error hresult]
      exact ⟨fun h => (nomatch h), hheld⟩
    | ok a =>
      rw [bind_of_ok hresult, ← hheld]
      exact hf a m'

theorem Lockless.frees (hx : Lockless x) : Frees x := fun content => hx ⟨false, content⟩

/-! ### Calls that free the lock -/

/-- A guard around a call that locks nothing. -/
theorem frees_lock {body : Guarded σ α} (h : Lockless body) : Frees (lock body) := by
  intro content
  obtain ⟨hwaits, -⟩ := h ⟨true, content⟩
  rcases hresult : body ⟨true, content⟩ with ⟨ending, m'⟩
  rw [hresult] at hwaits
  cases ending with
  | waits => exact absurd rfl hwaits
  | done outcome =>
    rw [FreesAt, lock_of_done hresult]
    exact ⟨fun h => (nomatch h), rfl⟩

/-- Guards one after the other. -/
theorem Frees.bind (hx : Frees x) (hf : ∀ a, Frees (f a)) : Frees (x >>= f) := by
  intro content
  obtain ⟨hwaits, hheld⟩ := hx content
  rw [FreesAt]
  rcases hresult : x ⟨false, content⟩ with ⟨ending, m'⟩
  rw [hresult] at hwaits hheld
  cases ending with
  | waits => exact absurd rfl hwaits
  | done outcome =>
    cases outcome with
    | error fault =>
      rw [bind_of_error hresult]
      exact ⟨fun h => (nomatch h), hheld⟩
    | ok a =>
      rw [bind_of_ok hresult]
      obtain ⟨held, content'⟩ := m'
      obtain rfl : held = false := hheld
      exact hf a content'

end Guarded

end Lord
