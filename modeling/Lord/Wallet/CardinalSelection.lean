import Mathlib.Data.Prod.Lex
import Lord.Lib.Precedence
import Lord.Wallet.SatTransport

/-! Which cardinal UTXO a selection takes: the values on the preferred side of the target come before
the others, the nearest first, and the one pass over the UTXOs finds the first of the best. -/

namespace Lord.Wallet.TransactionBuilder

open Bitcoin Ots Precedence

variable {b : TransactionBuilder}

/-- The UTXOs that hold plain satoshis. -/
def cardinals (b : TransactionBuilder) : List OutPoint := b.utxos.filter b.isCardinal

/-- The builder without a UTXO. -/
def without (b : TransactionBuilder) (utxo : OutPoint) : TransactionBuilder :=
  { b with utxos := b.utxos.filter (· ≠ utxo) }

/-! ### The order of preference -/

/-- The value is on the preferred side of the target. -/
def Preferred (targetValue : Nat) (preferUnder : Bool) (value : Nat) : Prop :=
  if preferUnder then value ≤ targetValue else targetValue ≤ value

instance (targetValue : Nat) (preferUnder : Bool) (value : Nat) :
    Decidable (Preferred targetValue preferUnder value) :=
  inferInstanceAs (Decidable (if preferUnder then _ else _))

/-- Values on the preferred side of the target rank above the others, and on each side the nearer ones
above the farther ones. -/
def preference (targetValue : Nat) (preferUnder : Bool) (value : Nat) : Bool ×ₗ Natᵒᵈ :=
  toLex (decide (Preferred targetValue preferUnder value), OrderDual.toDual (absDiff value targetValue))

theorem preference_lt {targetValue : Nat} {preferUnder : Bool} {value other : Nat} :
    preference targetValue preferUnder value < preference targetValue preferUnder other ↔
      ¬Preferred targetValue preferUnder value ∧ Preferred targetValue preferUnder other ∨
        (Preferred targetValue preferUnder value ↔ Preferred targetValue preferUnder other) ∧
          absDiff other targetValue < absDiff value targetValue := by
  rw [preference, preference, Prod.Lex.toLex_lt_toLex]
  simp [Bool.lt_iff]

/-- A UTXO replaces the best one before it when its value ranks higher. -/
theorem betterMatch_some (targetValue : Nat) (preferUnder : Bool) (best : OutPoint × Nat)
    (utxo : OutPoint) (currentValue : Nat) :
    betterMatch targetValue preferUnder (some best) utxo currentValue =
      if preference targetValue preferUnder best.2 < preference targetValue preferUnder currentValue
        then (utxo, currentValue) else best := by
  simp only [betterMatch, Option.getD_some, preference_lt, Preferred]
  refine if_congr ?_ rfl rfl
  cases preferUnder with
  | false =>
    simp only [Bool.false_eq_true, if_false, absDiff]
    omega
  | true =>
    simp only [if_true, absDiff]
    omega

theorem betterMatch_none (targetValue : Nat) (preferUnder : Bool) (utxo : OutPoint)
    (currentValue : Nat) :
    betterMatch targetValue preferUnder none utxo currentValue = (utxo, currentValue) :=
  ite_self _

/-! ### The pass over the UTXOs -/

/-- The cardinal UTXOs of a list with their values. -/
def candidates (b : TransactionBuilder) (utxos : List OutPoint) : List (OutPoint × Nat) :=
  (utxos.filter b.isCardinal).map fun utxo => (utxo, b.valueOf utxo)

/-- The pass returns the first of the best among the match that it starts with and the candidates. -/
theorem bestMatchFrom_first {targetValue : Nat} {preferUnder : Bool}
    {bestMatch : Option (OutPoint × Nat)} {utxos : List OutPoint} {found : OutPoint × Nat}
    (h : b.bestMatchFrom targetValue preferUnder bestMatch utxos = .ok (some found)) :
    IsFirstMax (fun candidate => preference targetValue preferUnder candidate.2)
      (bestMatch.toList ++ b.candidates utxos) found := by
  induction utxos generalizing bestMatch with
  | nil =>
    obtain rfl := Except.ok.inj h
    exact IsFirstMax.singleton _ found
  | cons utxo rest ih =>
    unfold bestMatchFrom at h
    split at h
    · rename_i hcardinal
      obtain ⟨currentValue, hvalue, h⟩ := bind_eq_ok.mp h
      obtain ⟨-, rfl⟩ := amountOf_eq_ok.mp hvalue
      have hrest := ih h
      rw [candidates, List.filter_cons_of_pos hcardinal, List.map_cons]
      cases bestMatch with
      | none => rwa [betterMatch_none] at hrest
      | some best =>
        rw [betterMatch_some] at hrest
        exact hrest.append_of_cons (IsFirstMax.pair _ best (utxo, b.valueOf utxo))
    · rename_i hskipped
      rw [candidates, List.filter_cons_of_neg hskipped]
      exact ih h

/-- The pass finds a match when there is a cardinal UTXO. -/
theorem bestMatchFrom_total {targetValue : Nat} {preferUnder : Bool}
    {bestMatch : Option (OutPoint × Nat)} {utxos : List OutPoint}
    (hwallet : ∀ utxo ∈ utxos, utxo ∈ b.amounts) :
    ∃ found, b.bestMatchFrom targetValue preferUnder bestMatch utxos = .ok found ∧
      (found = none → bestMatch = none ∧ utxos.filter b.isCardinal = []) := by
  induction utxos generalizing bestMatch with
  | nil => exact ⟨bestMatch, rfl, fun hnone => ⟨hnone, rfl⟩⟩
  | cons utxo rest ih =>
    have hrest : ∀ utxo ∈ rest, utxo ∈ b.amounts := fun utxo hutxo =>
      hwallet utxo (List.mem_cons_of_mem _ hutxo)
    unfold bestMatchFrom
    split
    · have hvalue : b.amountOf utxo = .ok (b.valueOf utxo) :=
        amountOf_eq_ok.mpr ⟨hwallet utxo List.mem_cons_self, rfl⟩
      rw [hvalue, ok_bind]
      obtain ⟨found, hfound, hnone⟩ := ih hrest
      exact ⟨found, hfound, fun heq => by cases (hnone heq).1⟩
    · rename_i hskipped
      rw [List.filter_cons_of_neg hskipped]
      exact ih hrest

/-! ### The selection -/

/-- The largest value up to the target, or, where all values are above it, the smallest one. -/
structure BestUnder (targetValue : Nat) (values : List Nat) (value : Nat) : Prop where
  under : ∀ other ∈ values, other ≤ targetValue → value ≤ targetValue ∧ other ≤ value
  above : (∀ other ∈ values, targetValue < other) → ∀ other ∈ values, value ≤ other

/-- The smallest value from the target on, or, where all values are below it, the largest one. -/
structure BestAbove (targetValue : Nat) (values : List Nat) (value : Nat) : Prop where
  above : ∀ other ∈ values, targetValue ≤ other → targetValue ≤ value ∧ value ≤ other
  under : (∀ other ∈ values, other < targetValue) → ∀ other ∈ values, other ≤ value

/-- The best cardinal UTXO, and the first one of its value in the order of the outpoints. -/
structure Selected (b : TransactionBuilder) (before : OutPoint → OutPoint → Prop) (targetValue : Nat)
    (preferUnder : Bool) (utxo : OutPoint) : Prop where
  cardinal : utxo ∈ b.cardinals
  under : preferUnder = true →
    BestUnder targetValue (b.cardinals.map b.valueOf) (b.valueOf utxo)
  above : preferUnder = false →
    BestAbove targetValue (b.cardinals.map b.valueOf) (b.valueOf utxo)
  first : ∀ other ∈ b.cardinals, b.valueOf other = b.valueOf utxo → other = utxo ∨ before utxo other

/-- The first of the best is what the selection is for. -/
theorem selected_of_isFirstMax {before : OutPoint → OutPoint → Prop} {targetValue : Nat}
    {preferUnder : Bool} {found : OutPoint × Nat} (hsorted : b.utxos.Pairwise before)
    (h : IsFirstMax (fun candidate => preference targetValue preferUnder candidate.2)
      (b.candidates b.utxos) found) :
    found.2 = b.valueOf found.1 ∧ Selected b before targetValue preferUnder found.1 := by
  have hle : ∀ other ∈ b.cardinals, ¬preference targetValue preferUnder found.2 <
      preference targetValue preferUnder (b.valueOf other) := fun other hother =>
    not_lt.mpr (h.le (List.mem_map_of_mem (f := fun utxo => (utxo, b.valueOf utxo)) hother))
  obtain ⟨front, back, hcandidates, hfront, -⟩ := h
  obtain ⟨ahead, behind, hcardinals, hahead, hbehind⟩ := List.map_eq_append_iff.mp hcandidates
  obtain ⟨utxo, rest, rfl, rfl, -⟩ := List.map_eq_cons_iff.mp hbehind
  have hcardinals : b.cardinals = ahead ++ utxo :: rest := hcardinals
  refine ⟨rfl, ?_⟩
  change Selected b before targetValue preferUnder utxo
  refine ⟨?_, ?_, ?_, ?_⟩
  · rw [hcardinals]
    exact List.mem_append_right _ List.mem_cons_self
  · rintro rfl
    simp only [preference_lt, Preferred, if_true, absDiff] at hle
    constructor
    · intro value hvalue hunder
      obtain ⟨other, hother, rfl⟩ := List.mem_map.mp hvalue
      have := hle other hother
      omega
    · intro habove value hvalue
      obtain ⟨other, hother, rfl⟩ := List.mem_map.mp hvalue
      have := hle other hother
      have := habove _ hvalue
      have := habove _ (List.mem_map_of_mem (f := b.valueOf) (a := utxo) (by simp [hcardinals]))
      omega
  · rintro rfl
    simp only [preference_lt, Preferred, Bool.false_eq_true, if_false, absDiff] at hle
    constructor
    · intro value hvalue habove
      obtain ⟨other, hother, rfl⟩ := List.mem_map.mp hvalue
      have := hle other hother
      omega
    · intro hunder value hvalue
      obtain ⟨other, hother, rfl⟩ := List.mem_map.mp hvalue
      have := hle other hother
      have := hunder _ hvalue
      have := hunder _ (List.mem_map_of_mem (f := b.valueOf) (a := utxo) (by simp [hcardinals]))
      omega
  · intro other hother hvalue
    have hordered := hsorted.filter b.isCardinal
    change b.cardinals.Pairwise before at hordered
    rw [hcardinals] at hordered hother
    rcases List.mem_append.mp hother with hother | hother
    · have hless := hfront _ (hahead ▸ List.mem_map_of_mem (f := fun utxo => (utxo, b.valueOf utxo))
        hother)
      rw [hvalue] at hless
      exact absurd hless (lt_irrefl _)
    · rcases List.mem_cons.mp hother with rfl | hother
      · exact .inl rfl
      · exact .inr (List.rel_of_pairwise_cons (List.pairwise_append.mp hordered).2.1 hother)

/-- A selection fails exactly when no cardinal UTXO is left, and otherwise takes out the best one. -/
theorem selectCardinalUtxo_optimal {before : OutPoint → OutPoint → Prop}
    (hsorted : b.utxos.Pairwise before) (hwallet : ∀ utxo ∈ b.utxos, utxo ∈ b.amounts)
    (targetValue : Nat) (preferUnder : Bool) :
    (b.selectCardinalUtxo targetValue preferUnder = .error (.err .notEnoughCardinalUtxos) ↔
        b.cardinals = []) ∧
      (b.cardinals ≠ [] → ∃ utxo, Selected b before targetValue preferUnder utxo ∧
        b.selectCardinalUtxo targetValue preferUnder =
          .ok ((utxo, b.valueOf utxo), b.without utxo)) := by
  obtain ⟨found, hfound, hnone⟩ := @bestMatchFrom_total b targetValue preferUnder none b.utxos hwallet
  unfold selectCardinalUtxo
  rw [hfound, ok_bind]
  cases found with
  | none =>
    have hempty : b.cardinals = [] := (hnone rfl).2
    exact ⟨iff_of_true rfl hempty, fun hne => absurd hempty hne⟩
  | some found =>
    have hfirst := bestMatchFrom_first hfound
    rw [Option.toList_none, List.nil_append] at hfirst
    obtain ⟨hvalue, hselected⟩ := selected_of_isFirstMax hsorted hfirst
    obtain ⟨utxo, value⟩ := found
    dsimp only at hvalue hselected
    subst hvalue
    refine ⟨iff_of_false nofun fun hempty => ?_, fun _ => ⟨utxo, hselected, rfl⟩⟩
    have hmem := hselected.cardinal
    rw [hempty] at hmem
    cases hmem

/-- Three cardinal UTXOs of 20000, 30000 and 40000, in the order of their transactions. -/
def cardinalBuilder : TransactionBuilder :=
  { exampleBuilder with inscriptions := ∅, lockedUtxos := ∅ }

theorem selectCardinalUtxo_optimal_example :
    ∃ utxo, Selected cardinalBuilder (fun one other => one.txid.val < other.txid.val) 35000 true
        utxo ∧
      cardinalBuilder.selectCardinalUtxo 35000 true =
        .ok ((utxo, cardinalBuilder.valueOf utxo), cardinalBuilder.without utxo) :=
  (selectCardinalUtxo_optimal (by decide +kernel) (by decide +kernel) 35000 true).2
    (by decide +kernel)

end Lord.Wallet.TransactionBuilder
