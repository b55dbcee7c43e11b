import Lord.Index.FindRange
import Lord.Lib.Hex
import Lord.Lib.Lines
import Lord.Lib.SortedMap
import Lord.Ordinals.Notation
import Mathlib.Data.Finset.Dedup
import Mathlib.Data.String.Basic

/-! The search for the sats of a file in the outputs of the wallet: one pass over the sats and the
ranges in their orders finds what a search for each sat of its own finds. -/

namespace Lord.Sats

open Bitcoin Ordinals
open Index (SatPoint SatRange findInRanges total)
open Notation (fromStr)

/-! ### The outputs of the wallet -/

/-- What the server tells of the outputs, in the order of their outpoints. -/
structure Wallet where
  hasSatIndex : Bool
  outputInfo : List (OutPoint × Option (List SatRange))

/-- The text of an outpoint. -/
def outpointText (outpoint : OutPoint) : String :=
  s!"{Hex.encode outpoint.txid.val.reverse}:{outpoint.vout}"

/-- The loop of `get_wallet_sat_ranges`. -/
def collectSatRanges :
    List (OutPoint × Option (List SatRange)) → Result (List (OutPoint × List SatRange))
  | [] => .ok []
  | (output, some ranges) :: rest => do
    let others ← collectSatRanges rest
    .ok ((output, ranges) :: others)
  | (output, none) :: _ =>
    .error s!"output {outpointText output} in wallet but is spent according to ord server"

def getWalletSatRanges (wallet : Wallet) : Result (List (OutPoint × List SatRange)) :=
  if wallet.hasSatIndex then collectSatRanges wallet.outputInfo
  else .error "ord index must be built with `--index-sats` to use `--sat`"

/-- The loop of `find_sat_in_outputs`. -/
def findInOutputs (sat : Nat) : List (OutPoint × Option (List SatRange)) → Option SatPoint
  | [] => none
  | (outpoint, some ranges) :: rest =>
    match findInRanges sat 0 ranges with
    | some offset => some ⟨outpoint, offset⟩
    | none => findInOutputs sat rest
  | (_, none) :: rest => findInOutputs sat rest

/-- `Wallet::find_sat_in_outputs`. -/
def findSatInOutputs (wallet : Wallet) (sat : Nat) : Result SatPoint :=
  if wallet.hasSatIndex then
    okOr (findInOutputs sat wallet.outputInfo) s!"could not find sat `{sat}` in wallet outputs"
  else .error "ord index must be built with `--index-sats` to use `--sat`"

/-! ### The needles of a file -/

/-- The line has a needle: it is neither empty nor a comment. -/
def isNeedle (line : String) : Bool := line.toList.head? != some '#' && !line.toList.isEmpty

/-- The first column of a line. -/
def firstColumn (line : String) : String := String.ofList (line.toList.takeWhile (· != '\t'))

/-- The first columns of the lines with needles, with the numbers of the lines. -/
def needleTexts (tsv : String) : List (String × Nat) :=
  ((Lines.lines tsv).zipIdx.filter fun line => isNeedle line.1).map fun line =>
    (firstColumn line.1, line.2)

def readNeedle (value : String) (i : Nat) : Outcome (Nat × String) :=
  match fromStr value with
  | .ok sat => .ok (sat, value)
  | .error (.err err) =>
    .error (.err s!"failed to parse sat from string \"{value}\" on line {i + 1}: {err}")
  | .error (.panic message) => .error (.panic message)

def readNeedles : List (String × Nat) → Outcome (List (Nat × String))
  | [] => .ok []
  | (value, i) :: rest => do
    let needle ← readNeedle value i
    let needles ← readNeedles rest
    .ok (needle :: needles)

/-- The order of needles: by sat, and by text. -/
def before (a b : Nat × String) : Bool := a.1 < b.1 || (a.1 = b.1 && a.2 ≤ b.2)

/-- `Sats::needles`. -/
def needles (tsv : String) : Outcome (List (Nat × String)) := do
  let read ← readNeedles (needleTexts tsv)
  .ok (read.mergeSort before)

/-! ### The search -/

structure Haystack where
  start : Nat
  stop : Nat
  offset : Nat
  outpoint : OutPoint
  deriving Repr, DecidableEq

/-- The haystack has the sat. -/
def Haystack.Holds (haystack : Haystack) (sat : Nat) : Prop :=
  haystack.start ≤ sat ∧ sat < haystack.stop

instance (haystack : Haystack) (sat : Nat) : Decidable (haystack.Holds sat) :=
  inferInstanceAs (Decidable (_ ∧ _))

def Haystack.satpoint (haystack : Haystack) (sat : Nat) : SatPoint :=
  ⟨haystack.outpoint, haystack.offset + sat - haystack.start⟩

/-- The ranges of an output with their offsets in it. -/
def outputHaystacks (outpoint : OutPoint) (offset : Nat) : List SatRange → List Haystack
  | [] => []
  | (start, stop) :: rest =>
    ⟨start, stop, offset, outpoint⟩ :: outputHaystacks outpoint (offset + (stop - start)) rest

def haystacksOf (ranges : List (OutPoint × List SatRange)) : List Haystack :=
  ranges.flatMap fun output => outputHaystacks output.1 0 output.2

/-- The loop of `find`, over the needles and the haystacks that are left. -/
def search : List (Nat × String) → List Haystack → SortedMap String SatPoint →
    SortedMap String SatPoint
  | [], _, results => results
  | _, [], results => results
  | (needle, value) :: needles, haystack :: haystacks, results =>
    let results := if haystack.Holds needle then results.insert value (haystack.satpoint needle)
      else results
    if haystack.stop ≤ needle then search ((needle, value) :: needles) haystacks results
    else search needles (haystack :: haystacks) results
  termination_by needles haystacks => needles.length + haystacks.length

/-- `Sats::find`. -/
def find (needles : List (Nat × String)) (ranges : List (OutPoint × List SatRange)) :
    SortedMap String SatPoint :=
  search needles ((haystacksOf ranges).mergeSort fun a b => a.start ≤ b.start) .empty

/-- The texts of the needles that are not found. -/
def lostOf (needles : List (Nat × String)) (found : SortedMap String SatPoint) : Finset String :=
  ((needles.filter fun needle => (found.get needle.2).isNone).map Prod.snd).toFinset

structure OutputTsv where
  found : SortedMap String SatPoint
  lost : Finset String

/-- `Sats::run` with a file. -/
def run (wallet : Wallet) (tsv : String) : Outcome OutputTsv := do
  if !wallet.hasSatIndex then
    .error (.err "sats requires index created with `--index-sats` flag")
  else
    let haystacks ← (getWalletSatRanges wallet).outcome
    let needles ← needles tsv
    let found := find needles haystacks
    .ok ⟨found, lostOf needles found⟩

/-! ### What a search finds -/

/-- The needles that a haystack has, with their satpoints. -/
def Found (needles : List (Nat × String)) (haystacks : List Haystack) (value : String)
    (satpoint : SatPoint) : Prop :=
  ∃ sat, (sat, value) ∈ needles ∧ ∃ haystack ∈ haystacks, haystack.Holds sat ∧
    satpoint = haystack.satpoint sat

/-- A haystack that ends in front of all needles is of no use. -/
theorem found_cons_of_stop_le {needles : List (Nat × String)} {haystack : Haystack}
    (h : ∀ needle ∈ needles, haystack.stop ≤ needle.1) (haystacks : List Haystack)
    (value : String) (satpoint : SatPoint) :
    Found needles (haystack :: haystacks) value satpoint ↔ Found needles haystacks value satpoint := by
  constructor
  · rintro ⟨sat, hneedle, other, hother, hholds, heq⟩
    rcases List.mem_cons.mp hother with rfl | hmem
    · have hle := h _ hneedle
      exact absurd hholds.2 (Nat.not_lt.mpr hle)
    · exact ⟨sat, hneedle, other, hmem, hholds, heq⟩
  · rintro ⟨sat, hneedle, other, hother, hholds, heq⟩
    exact ⟨sat, hneedle, other, List.mem_cons_of_mem _ hother, hholds, heq⟩

theorem found_cons {needle : Nat × String} {needles : List (Nat × String)}
    {haystacks : List Haystack} {value : String} {satpoint : SatPoint} :
    Found (needle :: needles) haystacks value satpoint ↔
      (needle.2 = value ∧ ∃ haystack ∈ haystacks, haystack.Holds needle.1 ∧
        satpoint = haystack.satpoint needle.1) ∨ Found needles haystacks value satpoint := by
  constructor
  · rintro ⟨sat, hneedle, hfound⟩
    rcases List.mem_cons.mp hneedle with rfl | hmem
    · exact .inl ⟨rfl, hfound⟩
    · exact .inr ⟨sat, hmem, hfound⟩
  · rintro (⟨rfl, hfound⟩ | ⟨sat, hmem, hfound⟩)
    · exact ⟨needle.1, List.mem_cons_self, hfound⟩
    · exact ⟨sat, List.mem_cons_of_mem _ hmem, hfound⟩

/-- Whatever is discarded is of no use to the rest: the search of sorted needles in sorted haystacks
finds every needle that a haystack has. -/
theorem get_search {needles : List (Nat × String)} {haystacks : List Haystack}
    {results : SortedMap String SatPoint}
    (hneedles : needles.Pairwise fun a b => a.1 ≤ b.1)
    (hhaystacks : haystacks.Pairwise fun a b => a.start ≤ b.start)
    (hunique : ∀ value satpoint satpoint',
      results.get value = some satpoint ∨ Found needles haystacks value satpoint →
      results.get value = some satpoint' ∨ Found needles haystacks value satpoint' →
      satpoint = satpoint')
    (value : String) (satpoint : SatPoint) :
    (search needles haystacks results).get value = some satpoint ↔
      results.get value = some satpoint ∨ Found needles haystacks value satpoint := by
  induction needles, haystacks, results using search.induct with
  | case1 haystacks results => simp [search, Found]
  | case2 needles results hne => simp [search, Found]
  | case3 needle value' needles haystack haystacks results results' hstop ih =>
    have hnot : ¬haystack.Holds needle := fun hholds => absurd hholds.2 (Nat.not_lt.mpr hstop)
    have hresults : results' = results := if_neg hnot
    have hbehind : ∀ other ∈ (needle, value') :: needles, haystack.stop ≤ other.1 := by
      intro other hother
      rcases List.mem_cons.mp hother with rfl | hmem
      · exact hstop
      · exact Nat.le_trans hstop ((List.pairwise_cons.mp hneedles).1 other hmem)
    have hfound := found_cons_of_stop_le hbehind haystacks
    rw [search, if_neg hnot, if_pos hstop, hfound]
    rw [hresults] at ih
    refine ih hneedles hhaystacks.of_cons ?_
    intro value satpoint satpoint' h h'
    rw [← hfound] at h h'
    exact hunique value satpoint satpoint' h h'
  | case4 needle value' needles haystack haystacks results results' hstop ih =>
    have hbefore : needle < haystack.stop := Nat.not_le.mp hstop
    -- the haystacks behind this one start behind it, and the needle is in front of its end
    have hhead : ∀ other ∈ haystack :: haystacks, other.Holds needle → haystack.start ≤ needle := by
      intro other hother hholds
      rcases List.mem_cons.mp hother with rfl | hmem
      · exact hholds.1
      · exact Nat.le_trans ((List.pairwise_cons.mp hhaystacks).1 other hmem) hholds.1
    have hsame : ∀ value satpoint,
        results'.get value = some satpoint ∨
            Found needles (haystack :: haystacks) value satpoint ↔
          results.get value = some satpoint ∨
            Found ((needle, value') :: needles) (haystack :: haystacks) value satpoint := by
      intro value satpoint
      rw [found_cons]
      by_cases hholds : haystack.Holds needle
      · have hresults : results' = results.insert value' (haystack.satpoint needle) := if_pos hholds
        have hfound : Found ((needle, value') :: needles) (haystack :: haystacks) value'
            (haystack.satpoint needle) :=
          found_cons.mpr (.inl ⟨rfl, haystack, List.mem_cons_self, hholds, rfl⟩)
        rw [hresults]
        by_cases hvalue : value = value'
        · subst hvalue
          rw [SortedMap.get_insert_self, Option.some.injEq, ← found_cons]
          constructor
          · rintro (rfl | h)
            · exact .inr hfound
            · exact .inr (found_cons.mpr (.inr h))
          · intro h
            exact .inl (hunique value _ _ (.inr hfound) h)
        · rw [SortedMap.get_insert_of_ne _ _ hvalue]
          simp [Ne.symm hvalue]
      · have hresults : results' = results := if_neg hholds
        have hnone : ¬∃ other ∈ haystack :: haystacks, other.Holds needle ∧
            satpoint = other.satpoint needle := by
          rintro ⟨other, hother, hother', -⟩
          exact hholds ⟨hhead other hother hother', hbefore⟩
        rw [hresults]
        simp only [hnone, and_false, false_or]
    rw [search, if_neg hstop, ← hsame]
    refine ih hneedles.of_cons hhaystacks ?_
    intro value satpoint satpoint' h h'
    rw [hsame] at h h'
    exact hunique value satpoint satpoint' h h'

/-! ### Disjoint ranges -/

/-- No two ranges have a sat in common. -/
def DisjointRanges (outputs : List (OutPoint × List SatRange)) : Prop :=
  (outputs.flatMap Prod.snd).Pairwise fun a b =>
    ∀ sat, ¬((a.1 ≤ sat ∧ sat < a.2) ∧ b.1 ≤ sat ∧ sat < b.2)

theorem ranges_outputHaystacks (outpoint : OutPoint) (offset : Nat) (ranges : List SatRange) :
    ((outputHaystacks outpoint offset ranges).map fun haystack =>
      (haystack.start, haystack.stop)) = ranges := by
  induction ranges generalizing offset with
  | nil => rfl
  | cons range rest ih => rw [outputHaystacks, List.map_cons, ih]

theorem ranges_haystacksOf (outputs : List (OutPoint × List SatRange)) :
    ((haystacksOf outputs).map fun haystack => (haystack.start, haystack.stop)) =
      outputs.flatMap Prod.snd := by
  rw [haystacksOf, List.map_flatMap]
  exact congrArg outputs.flatMap (funext fun output => ranges_outputHaystacks _ _ _)

/-- A sat is in one haystack at most. -/
theorem DisjointRanges.unique {outputs : List (OutPoint × List SatRange)} (h : DisjointRanges outputs)
    {a b : Haystack} (ha : a ∈ haystacksOf outputs) (hb : b ∈ haystacksOf outputs) {sat : Nat}
    (hina : a.Holds sat) (hinb : b.Holds sat) : a = b := by
  rw [DisjointRanges, ← ranges_haystacksOf, List.pairwise_map] at h
  have hsymm : Std.Symm fun a b : Haystack =>
      ∀ sat, ¬((a.start ≤ sat ∧ sat < a.stop) ∧ b.start ≤ sat ∧ sat < b.stop) :=
    ⟨fun a b hab sat hin => hab sat hin.symm⟩
  by_contra hne
  exact h.forall ha hb hne sat ⟨hina, hinb⟩

/-- The offset of a haystack is the number of sats in front of it in its output. -/
theorem mem_outputHaystacks {outpoint : OutPoint} {offset : Nat} {ranges : List SatRange}
    {haystack : Haystack} : haystack ∈ outputHaystacks outpoint offset ranges ↔
      ∃ front back, ranges = front ++ (haystack.start, haystack.stop) :: back ∧
        haystack.offset = offset + total front ∧ haystack.outpoint = outpoint := by
  induction ranges generalizing offset with
  | nil => simp [outputHaystacks]
  | cons range rest ih =>
    rw [outputHaystacks, List.mem_cons, ih]
    constructor
    · rintro (rfl | ⟨front, back, rfl, hoffset, houtpoint⟩)
      · exact ⟨[], rest, rfl, rfl, rfl⟩
      · refine ⟨range :: front, back, rfl, ?_, houtpoint⟩
        rw [hoffset, Index.total_cons, Nat.add_assoc]
    · rintro ⟨front, back, hranges, hoffset, houtpoint⟩
      cases front with
      | nil =>
        obtain ⟨rfl, rfl⟩ := List.cons.inj hranges
        obtain ⟨start, stop, offset', outpoint'⟩ := haystack
        left
        rw [Haystack.mk.injEq]
        exact ⟨rfl, rfl, hoffset, houtpoint⟩
      | cons first front =>
        obtain ⟨rfl, hrest⟩ := List.cons.inj hranges
        right
        refine ⟨front, back, hrest, ?_, houtpoint⟩
        rw [hoffset, Index.total_cons, Nat.add_assoc]

theorem mem_haystacksOf {outputs : List (OutPoint × List SatRange)} {haystack : Haystack} :
    haystack ∈ haystacksOf outputs ↔ ∃ front back,
      (haystack.outpoint, front ++ (haystack.start, haystack.stop) :: back) ∈ outputs ∧
        haystack.offset = total front := by
  rw [haystacksOf, List.mem_flatMap]
  constructor
  · rintro ⟨⟨outpoint, ranges⟩, hmem, hin⟩
    obtain ⟨front, back, hranges, hoffset, houtpoint⟩ := mem_outputHaystacks.mp hin
    dsimp only at hranges houtpoint
    rw [Nat.zero_add] at hoffset
    rw [hranges, ← houtpoint] at hmem
    exact ⟨front, back, hmem, hoffset⟩
  · rintro ⟨front, back, hmem, hoffset⟩
    refine ⟨_, hmem, mem_outputHaystacks.mpr ⟨front, back, rfl, ?_, rfl⟩⟩
    rw [Nat.zero_add]
    exact hoffset

/-- The sats of an output are all different. -/
theorem DisjointRanges.nodup {outputs : List (OutPoint × List SatRange)} (h : DisjointRanges outputs)
    {output : OutPoint × List SatRange} (houtput : output ∈ outputs) :
    (Index.sats output.2).Nodup := by
  have hranges : output.2.Pairwise fun a b =>
      ∀ sat, ¬((a.1 ≤ sat ∧ sat < a.2) ∧ b.1 ≤ sat ∧ sat < b.2) :=
    (List.pairwise_flatMap.mp h).1 output houtput
  refine List.nodup_flatMap.mpr ⟨fun range _ => List.nodup_range', hranges.imp fun {a b} hab => ?_⟩
  intro sat hina hinb
  rw [List.mem_range'_1] at hina hinb
  exact hab sat ⟨by omega, by omega⟩

/-- The sums of the search fit when the ranges are ranges of sats. -/
theorem DisjointRanges.offset_lt {outputs : List (OutPoint × List SatRange)} (h : DisjointRanges outputs)
    (hsupply : ∀ range ∈ outputs.flatMap Prod.snd, range.2 ≤ supply) {haystack : Haystack}
    (hin : haystack ∈ haystacksOf outputs) {sat : Nat} (hholds : haystack.Holds sat) :
    haystack.offset + sat < 2 ^ 64 := by
  obtain ⟨front, back, hmem, hoffset⟩ := mem_haystacksOf.mp hin
  have hnodup := h.nodup hmem
  have hranges : ∀ range ∈ front ++ (haystack.start, haystack.stop) :: back, range.2 ≤ supply :=
    fun range hrange => hsupply range (List.mem_flatMap.mpr ⟨_, hmem, hrange⟩)
  have hsubset : Index.sats (front ++ (haystack.start, haystack.stop) :: back) ⊆
      List.range supply := by
    intro sat hsat
    obtain ⟨range, hrange, hin⟩ := List.mem_flatMap.mp hsat
    have hle := hranges range hrange
    rw [List.mem_range'_1] at hin
    exact List.mem_range.mpr (by omega)
  have hlength := (List.subperm_of_subset hnodup hsubset).length_le
  rw [Index.length_sats, List.length_range, Index.total_append] at hlength
  have hstop : haystack.stop ≤ supply := hranges (haystack.start, haystack.stop) (by simp)
  have hbound : supply < 2 ^ 52 := by decide
  have hlt := hholds.2
  omega

/-! ### The plain search -/

theorem findInRanges_eq (outpoint : OutPoint) (sat offset : Nat) (ranges : List SatRange) :
    findInRanges sat offset ranges =
      ((outputHaystacks outpoint offset ranges).find? fun haystack => haystack.Holds sat).map
        fun haystack => haystack.offset + sat - haystack.start := by
  induction ranges generalizing offset with
  | nil => rfl
  | cons range rest ih =>
    obtain ⟨start, stop⟩ := range
    rw [findInRanges, outputHaystacks, List.find?_cons]
    by_cases hin : start ≤ sat ∧ sat < stop
    · have hholds : (⟨start, stop, offset, outpoint⟩ : Haystack).Holds sat := hin
      rw [if_pos hin, decide_eq_true hholds]
      rfl
    · have hholds : ¬(⟨start, stop, offset, outpoint⟩ : Haystack).Holds sat := hin
      rw [if_neg hin, decide_eq_false hholds, ih]

theorem findInOutputs_eq (sat : Nat) (outputs : List (OutPoint × List SatRange)) :
    findInOutputs sat (outputs.map fun output => (output.1, some output.2)) =
      ((haystacksOf outputs).find? fun haystack => haystack.Holds sat).map
        fun haystack => haystack.satpoint sat := by
  induction outputs with
  | nil => rfl
  | cons output rest ih =>
    obtain ⟨outpoint, ranges⟩ := output
    have hcons : haystacksOf ((outpoint, ranges) :: rest) =
        outputHaystacks outpoint 0 ranges ++ haystacksOf rest := rfl
    rw [List.map_cons, findInOutputs, findInRanges_eq outpoint, hcons, List.find?_append]
    cases hfind : (outputHaystacks outpoint 0 ranges).find? fun haystack => haystack.Holds sat with
    | none =>
      rw [Option.map_none]
      exact ih
    | some haystack =>
      obtain ⟨-, -, -, -, houtpoint⟩ := mem_outputHaystacks.mp (List.mem_of_find?_eq_some hfind)
      rw [Option.map_some, Option.some_or, Option.map_some, Haystack.satpoint, houtpoint]

theorem collectSatRanges_eq_ok {info : List (OutPoint × Option (List SatRange))}
    {outputs : List (OutPoint × List SatRange)} :
    collectSatRanges info = .ok outputs ↔
      info = outputs.map fun output => (output.1, some output.2) := by
  induction info generalizing outputs with
  | nil =>
    rw [collectSatRanges, Except.ok.injEq]
    cases outputs <;> simp
  | cons output rest ih =>
    obtain ⟨outpoint, ranges⟩ := output
    cases ranges with
    | none =>
      constructor
      · exact fun h => nomatch h
      · intro h
        cases outputs <;> cases h
    | some ranges =>
      rw [collectSatRanges, bind_eq_ok]
      constructor
      · rintro ⟨others, hothers, h⟩
        cases h
        rw [ih.mp hothers, List.map_cons]
      · intro h
        cases outputs with
        | nil => cases h
        | cons output others =>
          obtain ⟨hhead, htail⟩ := List.cons.inj h
          cases hhead
          exact ⟨others, ih.mpr htail, rfl⟩

/-- The plain search finds the one haystack that has the sat. -/
theorem findSatInOutputs_eq_ok {wallet : Wallet} {outputs : List (OutPoint × List SatRange)}
    (hwallet : getWalletSatRanges wallet = .ok outputs) (hdisjoint : DisjointRanges outputs)
    {sat : Nat} {satpoint : SatPoint} :
    findSatInOutputs wallet sat = .ok satpoint ↔
      ∃ haystack ∈ haystacksOf outputs, haystack.Holds sat ∧ satpoint = haystack.satpoint sat := by
  rw [getWalletSatRanges] at hwallet
  split at hwallet
  · rename_i hindex
    rw [findSatInOutputs, if_pos hindex, okOr_eq_ok, collectSatRanges_eq_ok.mp hwallet,
      findInOutputs_eq, Option.map_eq_some_iff]
    constructor
    · rintro ⟨haystack, hfind, rfl⟩
      have hholds := List.find?_some hfind
      exact ⟨haystack, List.mem_of_find?_eq_some hfind, by simpa using hholds, rfl⟩
    · rintro ⟨haystack, hmem, hholds, rfl⟩
      cases hfind : (haystacksOf outputs).find? fun haystack => haystack.Holds sat with
      | none =>
        have hnone := List.find?_eq_none.mp hfind haystack hmem
        exact absurd hholds (by simpa using hnone)
      | some other =>
        have hother := List.find?_some hfind
        obtain rfl := hdisjoint.unique (List.mem_of_find?_eq_some hfind) hmem (by simpa using hother)
          hholds
        exact ⟨other, rfl, rfl⟩
  · cases hwallet

/-! ### The search of a file -/

/-- Sorted needles are sorted by their sats. -/
theorem pairwise_before (read : List (Nat × String)) :
    (read.mergeSort before).Pairwise fun a b => a.1 ≤ b.1 := by
  have htrans : ∀ a b c : Nat × String, before a b → before b c → before a c := by
    intro a b c hab hbc
    simp only [before, Bool.or_eq_true, Bool.and_eq_true, decide_eq_true_eq] at *
    rcases hab with hab | ⟨hab, hle⟩
    · rcases hbc with hbc | ⟨hbc, -⟩ <;> exact .inl (by omega)
    · rcases hbc with hbc | ⟨hbc, hle'⟩
      · exact .inl (by omega)
      · exact .inr ⟨by omega, hle.trans hle'⟩
  have htotal : ∀ a b : Nat × String, before a b || before b a := by
    intro a b
    simp only [before, Bool.or_eq_true, Bool.and_eq_true, decide_eq_true_eq]
    rcases Nat.lt_trichotomy a.1 b.1 with hlt | heq | hgt
    · exact .inl (.inl hlt)
    · rcases le_total a.2 b.2 with hle | hle
      · exact .inl (.inr ⟨heq, hle⟩)
      · exact .inr (.inr ⟨heq.symm, hle⟩)
    · exact .inr (.inl hgt)
  refine (List.pairwise_mergeSort htrans htotal read).imp fun {a b} h => ?_
  simp only [before, Bool.or_eq_true, Bool.and_eq_true, decide_eq_true_eq] at h
  omega

theorem readNeedles_eq {texts : List (String × Nat)}
    (h : ∀ text ∈ texts, ∃ sat, fromStr text.1 = .ok sat) :
    ∃ read, readNeedles texts = .ok read ∧
      ∀ sat value, (sat, value) ∈ read ↔ value ∈ texts.map Prod.fst ∧ fromStr value = .ok sat := by
  induction texts with
  | nil => exact ⟨[], rfl, by simp⟩
  | cons text rest ih =>
    obtain ⟨value, i⟩ := text
    obtain ⟨⟨sat, hsat⟩, hrest⟩ := List.forall_mem_cons.mp h
    obtain ⟨read, hread, hmem⟩ := ih hrest
    have hneedle : readNeedle value i = .ok (sat, value) := by
      rw [readNeedle, hsat]
    refine ⟨(sat, value) :: read, ?_, ?_⟩
    · exact bind_eq_ok.mpr ⟨_, hneedle, bind_eq_ok.mpr ⟨_, hread, rfl⟩⟩
    · intro sat' value'
      rw [List.mem_cons, hmem, List.map_cons, List.mem_cons, Prod.mk.injEq]
      constructor
      · rintro (⟨rfl, rfl⟩ | ⟨hvalue, hparse⟩)
        · exact ⟨.inl rfl, hsat⟩
        · exact ⟨.inr hvalue, hparse⟩
      · rintro ⟨rfl | hvalue, hparse⟩
        · exact .inl ⟨Except.ok.inj (hparse.symm.trans hsat), rfl⟩
        · exact .inr ⟨hvalue, hparse⟩

/-- The search finds the needles that the haystacks have. -/
theorem get_find {needles : List (Nat × String)} {outputs : List (OutPoint × List SatRange)}
    (hdisjoint : DisjointRanges outputs) (hneedles : needles.Pairwise fun a b => a.1 ≤ b.1)
    (hparse : ∀ sat value, (sat, value) ∈ needles → fromStr value = .ok sat) (value : String)
    (satpoint : SatPoint) :
    (find needles outputs).get value = some satpoint ↔
      Found needles (haystacksOf outputs) value satpoint := by
  have hsorted : ((haystacksOf outputs).mergeSort fun a b => a.start ≤ b.start).Pairwise
      fun a b => a.start ≤ b.start := by
    refine (List.pairwise_mergeSort ?_ ?_ _).imp fun {a b} h => of_decide_eq_true h
    · intro a b c hab hbc
      simp only [decide_eq_true_eq] at *
      omega
    · intro a b
      simp only [Bool.or_eq_true, decide_eq_true_eq]
      omega
  have hnone : ∀ value satpoint,
      ¬(SortedMap.empty : SortedMap String SatPoint).get value = some satpoint :=
    fun value satpoint h => nomatch h
  have hmem : Found needles ((haystacksOf outputs).mergeSort fun a b => a.start ≤ b.start) value
      satpoint ↔ Found needles (haystacksOf outputs) value satpoint := by
    simp only [Found, List.mem_mergeSort]
  rw [find, get_search hneedles hsorted, hmem]
  · simp [hnone]
  · rintro value satpoint satpoint' (h | ⟨sat, hneedle, haystack, hin, hholds, rfl⟩) h'
    · exact absurd h (hnone _ _)
    rcases h' with h' | ⟨sat', hneedle', haystack', hin', hholds', rfl⟩
    · exact absurd h' (hnone _ _)
    -- the text of a needle determines its sat, and the sat its haystack
    obtain rfl : sat = sat' :=
      Except.ok.inj ((hparse _ _ hneedle).symm.trans (hparse _ _ hneedle'))
    rw [hdisjoint.unique (List.mem_mergeSort.mp hin) (List.mem_mergeSort.mp hin') hholds hholds']

/-- The texts of a file whose sats are in the ranges of the wallet are found where the search for each
sat of its own finds it, and the others are lost.  When the ranges are ranges of sats, the sums of the
search fit 64 bits. -/
theorem run_finds {wallet : Wallet} {outputs : List (OutPoint × List SatRange)} {tsv : String}
    (hwallet : getWalletSatRanges wallet = .ok outputs) (hdisjoint : DisjointRanges outputs)
    (hparse : ∀ text ∈ needleTexts tsv, ∃ sat, fromStr text.1 = .ok sat) :
    ∃ output, run wallet tsv = .ok output ∧
      (∀ value satpoint, output.found.get value = some satpoint ↔
        value ∈ (needleTexts tsv).map Prod.fst ∧
          ∃ sat, fromStr value = .ok sat ∧ findSatInOutputs wallet sat = .ok satpoint) ∧
      (∀ value, value ∈ output.lost ↔ value ∈ (needleTexts tsv).map Prod.fst ∧
        ∃ sat, fromStr value = .ok sat ∧
          ∀ range ∈ outputs.flatMap Prod.snd, ¬(range.1 ≤ sat ∧ sat < range.2)) ∧
      (∀ sat outpoint offset, findSatInOutputs wallet sat = .ok ⟨outpoint, offset⟩ ↔
        ∃ front start stop back, (outpoint, front ++ (start, stop) :: back) ∈ outputs ∧
          start ≤ sat ∧ sat < stop ∧ offset = total front + (sat - start)) ∧
      ((∀ range ∈ outputs.flatMap Prod.snd, range.2 ≤ supply) →
        ∀ value satpoint, output.found.get value = some satpoint →
          ∃ sat, ∃ haystack ∈ haystacksOf outputs, satpoint = haystack.satpoint sat ∧
            haystack.offset + sat < 2 ^ 64) := by
  obtain ⟨read, hread, hmem⟩ := readNeedles_eq hparse
  have hindex : wallet.hasSatIndex = true := by
    rw [getWalletSatRanges] at hwallet
    split at hwallet
    · assumption
    · cases hwallet
  have hneedle : ∀ sat value, (sat, value) ∈ read.mergeSort before ↔
      value ∈ (needleTexts tsv).map Prod.fst ∧ fromStr value = .ok sat := by
    intro sat value
    rw [List.mem_mergeSort, hmem]
  have hfound := get_find hdisjoint (pairwise_before read) fun sat value h => ((hneedle _ _).mp h).2
  have hplain := @findSatInOutputs_eq_ok wallet outputs hwallet hdisjoint
  have hget : ∀ value satpoint,
      (find (read.mergeSort before) outputs).get value = some satpoint ↔
        value ∈ (needleTexts tsv).map Prod.fst ∧
          ∃ sat, fromStr value = .ok sat ∧ findSatInOutputs wallet sat = .ok satpoint := by
    intro value satpoint
    rw [hfound]
    constructor
    · rintro ⟨sat, hin, hhaystack⟩
      obtain ⟨hvalue, hsat⟩ := (hneedle sat value).mp hin
      exact ⟨hvalue, sat, hsat, hplain.mpr hhaystack⟩
    · rintro ⟨hvalue, sat, hsat, hplain'⟩
      exact ⟨sat, (hneedle sat value).mpr ⟨hvalue, hsat⟩, hplain.mp hplain'⟩
  have hrun : run wallet tsv = .ok ⟨find (read.mergeSort before) outputs,
      lostOf (read.mergeSort before) (find (read.mergeSort before) outputs)⟩ := by
    unfold run
    rw [hindex, hwallet]
    exact bind_eq_ok.mpr ⟨_, rfl, bind_eq_ok.mpr ⟨_, bind_eq_ok.mpr ⟨_, hread, rfl⟩, rfl⟩⟩
  refine ⟨_, hrun, hget, ?_, ?_, ?_⟩
  · intro value
    have hheld : ∀ sat, (∀ range ∈ outputs.flatMap Prod.snd, ¬(range.1 ≤ sat ∧ sat < range.2)) ↔
        ∀ haystack ∈ haystacksOf outputs, ¬haystack.Holds sat := by
      intro sat
      rw [← ranges_haystacksOf, List.forall_mem_map]
      rfl
    rw [lostOf, List.mem_toFinset, List.mem_map]
    constructor
    · rintro ⟨⟨sat, value'⟩, hin, rfl⟩
      obtain ⟨hin, hlost⟩ := List.mem_filter.mp hin
      obtain ⟨hvalue, hsat⟩ := (hneedle _ _).mp hin
      refine ⟨hvalue, sat, hsat, (hheld sat).mpr fun haystack hhaystack hholds => ?_⟩
      have hsome := (hget _ _).mpr
        ⟨hvalue, sat, hsat, hplain.mpr ⟨haystack, hhaystack, hholds, rfl⟩⟩
      dsimp only at hlost
      rw [hsome] at hlost
      cases hlost
    · rintro ⟨hvalue, sat, hsat, hnot⟩
      refine ⟨(sat, value), List.mem_filter.mpr ⟨(hneedle _ _).mpr ⟨hvalue, hsat⟩, ?_⟩, rfl⟩
      rw [Option.isNone_iff_eq_none]
      refine Option.eq_none_iff_forall_ne_some.mpr fun satpoint hsome => ?_
      obtain ⟨-, sat', hsat', hplain'⟩ := (hget _ _).mp hsome
      obtain rfl : sat = sat' := Except.ok.inj (hsat.symm.trans hsat')
      obtain ⟨haystack, hhaystack, hholds, -⟩ := hplain.mp hplain'
      exact (hheld sat).mp hnot haystack hhaystack hholds
  · intro sat outpoint offset
    rw [hplain]
    constructor
    · rintro ⟨haystack, hhaystack, hholds, heq⟩
      obtain ⟨front, back, hmem, hoffset⟩ := mem_haystacksOf.mp hhaystack
      obtain ⟨houtpoint, hat⟩ := SatPoint.mk.inj heq
      rw [← houtpoint] at hmem
      refine ⟨front, _, _, back, hmem, hholds.1, hholds.2, ?_⟩
      rw [hat, hoffset]
      exact Nat.add_sub_assoc hholds.1 _
    · rintro ⟨front, start, stop, back, hmem, hlo, hhi, hoffset⟩
      refine ⟨⟨start, stop, total front, outpoint⟩, mem_haystacksOf.mpr ⟨front, back, hmem, rfl⟩,
        ⟨hlo, hhi⟩, ?_⟩
      rw [Haystack.satpoint, SatPoint.mk.injEq]
      exact ⟨rfl, hoffset.trans (Nat.add_sub_assoc hlo _).symm⟩
  · intro hsupply value satpoint hsome
    obtain ⟨sat, -, haystack, hhaystack, hholds, rfl⟩ := (hfound _ _).mp hsome
    exact ⟨sat, haystack, hhaystack, rfl, hdisjoint.offset_lt hsupply hhaystack hholds⟩

/-- Two outputs, one of them with ranges out of order and an empty range. -/
def twoOutputs : List (OutPoint × List SatRange) :=
  [(⟨Bytes32.replicate 1, 0⟩, [(5, 9), (3, 3), (0, 2)]), (⟨Bytes32.replicate 2, 1⟩, [(2, 3)])]

/-- A sat in a later range of its output, and one that is not in the wallet. -/
theorem run_finds_example :
    ∃ output, run ⟨true, twoOutputs.map fun output => (output.1, some output.2)⟩ "1\n#\n0.4\tx\n" =
      .ok output ∧ output.found.get "1" = some ⟨⟨⟨List.replicate 32 1, rfl⟩, 0⟩, 5⟩ ∧
        "0.4" ∈ output.lost := by
  have htexts : needleTexts "1\n#\n0.4\tx\n" = [("1", 0), ("0.4", 2)] := by decide +kernel
  have hone : fromStr "1" = .ok 1 := by decide +kernel
  have hfour : fromStr "0.4" = .ok 4 := by decide +kernel
  have hdisjoint : DisjointRanges twoOutputs := by
    simp [DisjointRanges, twoOutputs]
    grind
  obtain ⟨output, hrun, hfound, hlost, hat, -⟩ :=
    @run_finds ⟨true, twoOutputs.map fun output => (output.1, some output.2)⟩ twoOutputs
      "1\n#\n0.4\tx\n" rfl hdisjoint (by rw [htexts]; simp [hone, hfour])
  rw [htexts] at hfound hlost
  refine ⟨output, hrun, (hfound _ _).mpr ⟨by simp, 1, hone, ?_⟩, (hlost _).mpr ⟨by simp, 4, hfour, ?_⟩⟩
  · exact (hat _ _ _).mpr ⟨[(5, 9), (3, 3)], 0, 2, [], by simp [twoOutputs], by decide, by decide, rfl⟩
  · simp [twoOutputs]

end Lord.Sats
