import Lord.Ordinals.NotationRoundTrip
import Mathlib.Data.Nat.Digits.Defs

/-! Which numbers the notations are defined on: those of the sats that are ever mined. -/

namespace Lord.Ordinals.Notation

/-- Every notation of the number is computed without overflow, underflow or division by zero; epoch,
cycle, nineball and coin are total. -/
structure Evaluates (n : Nat) : Prop where
  height : ¬Outcome.Panics (height n)
  third : ¬Outcome.Panics (third n)
  period : ¬Outcome.Panics (period n)
  degree : ¬Outcome.Panics (degree n)
  decimal : ¬Outcome.Panics (decimal n)
  rarity : ¬Outcome.Panics (rarity n)
  palindrome : ¬Outcome.Panics (palindrome n)
  charms : ¬Outcome.Panics (charms n)
  name : ¬Outcome.Panics (name n)

/-! ### Palindromes -/

/-- The loop of `palindrome` reverses the digits, and nineteen of them fit. -/
theorem reversedFrom_eq {fuel n reversed d k : Nat} (hfuel : n ≤ fuel) (hn : n < 10 ^ d)
    (hreversed : reversed < 10 ^ k) (hdigits : d + k ≤ 19) :
    reversedFrom fuel n reversed =
      .ok (Nat.ofDigits 10 ((Nat.digits 10 n).reverse ++ [reversed])) := by
  induction fuel generalizing n reversed d k with
  | zero =>
    obtain rfl : n = 0 := Nat.le_zero.mp hfuel
    simp [reversedFrom]
  | succ fuel ih =>
    rw [reversedFrom]
    split
    · rename_i hzero
      simp [hzero]
    · rename_i hne
      obtain ⟨d, rfl⟩ : ∃ d', d = d' + 1 := by
        cases d with
        | zero => exact absurd (Nat.lt_one_iff.mp hn) hne
        | succ d => exact ⟨d, rfl⟩
      rw [Nat.pow_succ] at hn
      have hnext : reversed * 10 + n % 10 < 10 ^ (k + 1) := by
        rw [Nat.pow_succ]
        omega
      have hroom : 10 ^ (k + 1) ≤ 10 ^ 19 := Nat.pow_le_pow_right (by decide) (by omega)
      have hbound : 10 ^ 19 < 2 ^ 64 := by decide
      have hrest : n / 10 < 10 ^ d := by omega
      rw [Checked.mul_of_lt (by omega), ok_bind, Checked.add_of_lt (by omega), ok_bind,
        ih (by omega) hrest hnext (by omega),
        Nat.digits_def' (by decide) (Nat.pos_of_ne_zero hne), List.reverse_cons]
      simp only [Nat.ofDigits_append, Nat.ofDigits_cons, Nat.ofDigits_nil, List.append_assoc,
        List.cons_append, List.nil_append]
      congr 3
      omega

theorem palindrome_eq {sat : Nat} (h : sat < 10 ^ 19) :
    palindrome sat = .ok (sat = Nat.ofDigits 10 (Nat.digits 10 sat).reverse) := by
  have hreversed := reversedFrom_eq (Nat.le_refl sat) h (by decide : 0 < 10 ^ 0) (Nat.le_refl _)
  rw [palindrome, hreversed, ok_bind, Nat.ofDigits_append]
  simp

/-! ### Sats behind the last one -/

theorem ofSat_of_le {sat : Nat} (h : supply ≤ sat) : Epoch.ofSat sat = 33 := by
  have hstarts : ∀ start ∈ startingSats.tail, start ≤ supply := by decide
  refine List.findIdx_eq_length_of_false fun start hstart => ?_
  have hle := hstarts start hstart
  rw [decide_eq_false_iff_not]
  omega

/-- The subsidy of the last epoch is zero, and the height divides by it. -/
theorem height_of_le {sat : Nat} (h : supply ≤ sat) :
    height sat = .error (.panic "attempt to divide by zero") := by
  have hposition : epochPosition sat = .ok (sat - supply) := by
    rw [epochPosition, ofSat_of_le h]
    exact Checked.sub_of_le h
  rw [height, ofSat_of_le h, hposition]
  rfl

/-! ### Sats of blocks -/

theorem charms_eq {sat : Nat} {p : Bool} {r : Rarity} (hpalindrome : palindrome sat = .ok p)
    (hrarity : rarity sat = .ok r) : ∃ c, charms sat = .ok c :=
  ⟨_, bind_eq_ok.mpr ⟨_, hpalindrome, bind_eq_ok.mpr ⟨_, hrarity, rfl⟩⟩⟩

theorem not_panics_of_eq_ok {α : Type} {x : Outcome α} (h : ∃ a, x = .ok a) : ¬Outcome.Panics x := by
  obtain ⟨a, rfl⟩ := h
  exact Outcome.not_panics_ok a

theorem evaluates_iff (n : Nat) : Evaluates n ↔ n < supply := by
  constructor
  · intro h
    by_contra hle
    exact h.height ⟨_, height_of_le (Nat.not_lt.mp hle)⟩
  · intro h
    obtain ⟨block, offset, hoffset, rfl⟩ := exists_block h
    obtain ⟨hheight, hthird⟩ := height_at hoffset
    have hdegree := degree_at hoffset
    have hdigits : Height.startingSat block + offset < 10 ^ 19 :=
      Nat.lt_trans h (by decide)
    have hpalindrome := palindrome_eq hdigits
    obtain ⟨r, hrarity⟩ : ∃ r, rarity (Height.startingSat block + offset) = .ok r :=
      ⟨_, bind_eq_ok.mpr ⟨_, hdegree, rfl⟩⟩
    refine ⟨?_, ?_, ?_, ?_, ?_, ?_, ?_, ?_, ?_⟩ <;> apply not_panics_of_eq_ok
    · exact ⟨_, hheight⟩
    · exact ⟨_, hthird⟩
    · exact ⟨_, bind_eq_ok.mpr ⟨_, hheight, rfl⟩⟩
    · exact ⟨_, hdegree⟩
    · exact ⟨_, bind_eq_ok.mpr ⟨_, hheight, bind_eq_ok.mpr ⟨_, hthird, rfl⟩⟩⟩
    · exact ⟨_, hrarity⟩
    · exact ⟨_, hpalindrome⟩
    · exact charms_eq hpalindrome hrarity
    · exact ⟨_, name_eq h.le⟩

end Lord.Ordinals.Notation
