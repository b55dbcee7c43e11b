import Mathlib.Data.Int.CardIntervalMod
import Mathlib.Data.Nat.Count

/-! How many numbers below a bound have a property: multiples, parts of a property, and a property that
of each of consecutive blocks only the first number may have. -/

namespace Lord.Counting

variable (p q : Nat → Prop) [DecidablePred p] [DecidablePred q]

theorem count_congr {p q : Nat → Prop} [DecidablePred p] [DecidablePred q] {n : Nat}
    (h : ∀ k < n, p k ↔ q k) : Nat.count p n = Nat.count q n :=
  Nat.le_antisymm (Nat.count_mono_left fun k hk => (h k hk).mp)
    (Nat.count_mono_left fun k hk => (h k hk).mpr)

/-- The numbers with a property are those with another one and those without it. -/
theorem count_and_add_count_and_not (n : Nat) :
    Nat.count (fun k => p k ∧ q k) n + Nat.count (fun k => p k ∧ ¬q k) n = Nat.count p n := by
  induction n with
  | zero => rfl
  | succ n ih =>
    simp only [Nat.count_succ]
    by_cases hp : p n
    · by_cases hq : q n <;> simp only [hp, hq, not_true, not_false_eq_true, and_self, if_true,
        if_false, and_false] <;> omega
    · simp only [hp, false_and, if_false]
      exact ih

theorem count_add_count_not (n : Nat) :
    Nat.count p n + Nat.count (fun k => ¬p k) n = n := by
  have h := count_and_add_count_and_not (fun _ => True) p n
  simpa only [true_and, Nat.count_true] using h

/-- The multiples of a number, zero included. -/
theorem count_dvd {d : Nat} (h : 0 < d) (n : Nat) :
    Nat.count (fun k => d ∣ k) n = n / d + if 0 < n % d then 1 else 0 := by
  have hcount := Nat.count_modEq_card n h 0
  rw [Nat.zero_mod] at hcount
  rw [← hcount]
  congr 1
  funext k
  rw [Nat.modEq_zero_iff_dvd]

/-- Consecutive blocks, of which only the first number may have the property, have as many such numbers
as there are blocks that begin with one. -/
theorem count_starts {start size : Nat → Nat} (hzero : start 0 = 0)
    (hnext : ∀ block, start (block + 1) = start block + size block) {blocks : Nat}
    (hpos : ∀ block < blocks, 0 < size block)
    (hrest : ∀ block < blocks, ∀ offset < size block, 0 < offset → ¬p (start block + offset)) :
    Nat.count p (start blocks) = Nat.count (fun block => p (start block)) blocks := by
  induction blocks with
  | zero => rw [hzero, Nat.count_zero, Nat.count_zero]
  | succ block ih =>
    have hlast := hrest block (Nat.lt_succ_self block)
    obtain ⟨rest, hsize⟩ := Nat.exists_eq_succ_of_ne_zero (hpos block (Nat.lt_succ_self block)).ne'
    have hnone : Nat.count (fun k => p (start block + (k + 1))) rest = 0 :=
      Nat.count_iff_forall_not.mpr fun k hk => hlast (k + 1) (by omega) (Nat.succ_pos k)
    rw [hnext, hsize, Nat.count_add, Nat.count_succ', hnone, Nat.count_succ,
      ih (fun b hb => hpos b (by omega)) fun b hb => hrest b (by omega), Nat.zero_add, Nat.add_zero]

end Lord.Counting
