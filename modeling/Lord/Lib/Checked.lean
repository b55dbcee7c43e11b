import Lord.Lib.Error
import Mathlib.Algebra.Order.Group.Nat

/-! Unsigned arithmetic that panics on results that do not fit. -/

namespace Lord.Checked

def add (bits a b : Nat) : Outcome Nat :=
  if a + b < 2 ^ bits then .ok (a + b) else .error (.panic "attempt to add with overflow")

def sub (a b : Nat) : Outcome Nat :=
  if b ≤ a then .ok (a - b) else .error (.panic "attempt to subtract with overflow")

def mul (bits a b : Nat) : Outcome Nat :=
  if a * b < 2 ^ bits then .ok (a * b) else .error (.panic "attempt to multiply with overflow")

def div (a b : Nat) : Outcome Nat :=
  if b = 0 then .error (.panic "attempt to divide by zero") else .ok (a / b)

def rem (a b : Nat) : Outcome Nat :=
  if b = 0 then .error (.panic "attempt to calculate the remainder with a divisor of zero")
  else .ok (a % b)

theorem add_of_lt {bits a b : Nat} (h : a + b < 2 ^ bits) : add bits a b = .ok (a + b) := if_pos h

theorem sub_of_le {a b : Nat} (h : b ≤ a) : sub a b = .ok (a - b) := if_pos h

theorem mul_of_lt {bits a b : Nat} (h : a * b < 2 ^ bits) : mul bits a b = .ok (a * b) := if_pos h

theorem div_of_pos {a b : Nat} (h : 0 < b) : div a b = .ok (a / b) := if_neg (Nat.ne_of_gt h)

theorem rem_of_pos {a b : Nat} (h : 0 < b) : rem a b = .ok (a % b) := if_neg (Nat.ne_of_gt h)

theorem add_eq_ok {bits a b n : Nat} : add bits a b = .ok n ↔ a + b < 2 ^ bits ∧ a + b = n := by
  unfold add
  split <;> simp_all

theorem sub_eq_ok {a b n : Nat} : sub a b = .ok n ↔ b ≤ a ∧ a - b = n := by
  unfold sub
  split <;> simp_all

theorem mul_eq_ok {bits a b n : Nat} : mul bits a b = .ok n ↔ a * b < 2 ^ bits ∧ a * b = n := by
  unfold mul
  split <;> simp_all

end Lord.Checked

namespace Lord.Outcome

/-- The call ends in a panic. -/
def Panics {α : Type} (outcome : Outcome α) : Prop :=
  ∃ message, outcome = .error (.panic message)

theorem panics_bind {α β : Type} {x : Outcome α} {f : α → Outcome β} :
    Panics (x >>= f) ↔ Panics x ∨ ∃ a, x = .ok a ∧ Panics (f a) := by
  cases x with
  | error fault => simp [Panics, bind, Except.bind]
  | ok a => simp [Panics, bind, Except.bind]

theorem not_panics_ok {α : Type} (a : α) : ¬Panics (.ok a : Outcome α) :=
  fun ⟨_, h⟩ => nomatch h

theorem not_panics_err {α : Type} (err : Error) : ¬Panics (.error (.err err) : Outcome α) :=
  fun ⟨_, h⟩ => nomatch h

theorem panics_add {bits a b : Nat} : Panics (Checked.add bits a b) ↔ 2 ^ bits ≤ a + b := by
  unfold Checked.add
  split <;> simp_all [Panics]

theorem panics_mul {bits a b : Nat} : Panics (Checked.mul bits a b) ↔ 2 ^ bits ≤ a * b := by
  unfold Checked.mul
  split <;> simp_all [Panics]

theorem panics_sub {a b : Nat} : Panics (Checked.sub a b) ↔ a < b := by
  unfold Checked.sub
  split <;> simp_all [Panics]

end Lord.Outcome
