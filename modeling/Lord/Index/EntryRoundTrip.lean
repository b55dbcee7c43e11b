import Lord.Index.UtxoEntry
import Lord.Ordinals.Sat

/-! What is pushed on an entry parses again, and entries merge by their ranges. -/

namespace Lord.Index

open Ordinals

namespace ParsedUtxoEntry

/-- The loop of `total_value`, in `u64`. -/
def addLengths (value : Nat) : List SatRange → Outcome Nat
  | [] => .ok value
  | range :: rest =>
    if value + (range.2 - range.1) < 2 ^ 64 then addLengths (value + (range.2 - range.1)) rest
    else .error (.panic "attempt to add with overflow")

/-- `total_value`, which panics when the sum does not fit. -/
def total (entry : ParsedUtxoEntry) : Outcome Nat :=
  match entry.sats with
  | .value value => .ok value
  | .ranges bytes => addLengths 0 (SatRange.loadAll bytes)

end ParsedUtxoEntry

/-- The sum of the lengths. -/
def lengths (ranges : List SatRange) : Nat := (ranges.map fun range => range.2 - range.1).sum

theorem lengths_replicate (count : Nat) (range : SatRange) :
    lengths (List.replicate count range) = count * (range.2 - range.1) := by
  simp [lengths]

theorem addLengths_eq {value : Nat} (h : value < 2 ^ 64) (ranges : List SatRange) :
    ParsedUtxoEntry.addLengths value ranges =
      if value + lengths ranges < 2 ^ 64 then .ok (value + lengths ranges)
      else .error (.panic "attempt to add with overflow") := by
  induction ranges generalizing value with
  | nil => exact (if_pos h).symm
  | cons range rest ih =>
    have hsum : lengths (range :: rest) = range.2 - range.1 + lengths rest := by simp [lengths]
    rw [ParsedUtxoEntry.addLengths, hsum]
    by_cases hfits : value + (range.2 - range.1) < 2 ^ 64
    · rw [if_pos hfits, ih hfits, Nat.add_assoc]
    · rw [if_neg hfits, if_neg (by omega)]

/-- The sum in `u64` of an entry is the plain sum as long as that fits. -/
theorem ParsedUtxoEntry.total_eq {entry : ParsedUtxoEntry}
    (h : ∀ value, entry.sats = .value value → value < 2 ^ 64) :
    entry.total =
      if entry.totalValue < 2 ^ 64 then .ok entry.totalValue
      else .error (.panic "attempt to add with overflow") := by
  unfold total totalValue
  cases hsats : entry.sats with
  | value value => exact (if_pos (h value hsats)).symm
  | ranges bytes =>
    have hsum := addLengths_eq (by decide : 0 < 2 ^ 64) (SatRange.loadAll bytes)
    rw [Nat.zero_add] at hsum
    exact hsum

/-- So it is with every entry that parses. -/
theorem total_of_parse {config : IndexConfig} {bytes : Bytes} {entry : ParsedUtxoEntry}
    (h : UtxoEntry.parse config bytes = some entry) :
    entry.total =
      if entry.totalValue < 2 ^ 64 then .ok entry.totalValue
      else .error (.panic "attempt to add with overflow") := by
  refine ParsedUtxoEntry.total_eq fun value hvalue => ?_
  obtain ⟨⟨number, rest⟩, -, h⟩ := Option.bind_eq_some_iff.mp h
  -- what is read behind the sats keeps them
  have hkeeps : ∀ {sats : Sats} {rest : Bytes},
      (if config.indexAddresses then (Varint.decode rest).bind fun script =>
        if script.2.length < script.1 then none else some ⟨sats, some (script.2.take script.1)⟩
      else
        some ⟨sats, none⟩) = some entry → entry.sats = sats := by
    intro sats rest hbehind
    split at hbehind
    · obtain ⟨script, -, hbehind⟩ := Option.bind_eq_some_iff.mp hbehind
      split at hbehind
      · cases hbehind
      · cases hbehind
        rfl
    · cases hbehind
      rfl
  dsimp only at h
  split at h
  · split at h
    · cases h
    · rw [hkeeps h] at hvalue
      cases hvalue
  · split at h
    · cases h
    · rename_i hfits
      rw [hkeeps h] at hvalue
      cases hvalue
      exact Nat.lt_of_not_le hfits

/-- What the entry of an output is built from. -/
structure Contents where
  ranges : List SatRange
  value : Nat
  scriptPubkey : Bytes

namespace Contents

/-- The ranges and the value are ones that an entry can hold. -/
structure Valid (contents : Contents) : Prop where
  ranges : ∀ range ∈ contents.ranges, range.Storable
  value : contents.value < 2 ^ 64

def entry (config : IndexConfig) (contents : Contents) : Bytes :=
  UtxoEntry.pushed config contents.ranges contents.value contents.scriptPubkey

/-- What `merged` asserts of both entries. -/
def Mergeable (config : IndexConfig) (contents : Contents) : Prop :=
  (config.indexSats = false → contents.value = 0) ∧
    (config.indexAddresses = true → contents.scriptPubkey = [])

instance (config : IndexConfig) (contents : Contents) : Decidable (contents.Mergeable config) :=
  inferInstanceAs (Decidable (_ ∧ _))

def append (a b : Contents) : Contents := ⟨a.ranges ++ b.ranges, 0, []⟩

/-- Without ranges, value and script. -/
def empty : Contents := ⟨[], 0, []⟩

/-- Entries merge exactly when both are mergeable. -/
theorem merged_entry {config : IndexConfig} {a b : Contents} (ha : a.Valid) (hb : b.Valid) :
    UtxoEntry.merged config (a.entry config) (b.entry config) =
      if a.Mergeable config ∧ b.Mergeable config then some ((a.append b).entry config) else none := by
  have hstore : SatRange.storeAll a.ranges ++ SatRange.storeAll b.ranges =
      SatRange.storeAll (a.ranges ++ b.ranges) := by
    simp [SatRange.storeAll]
  unfold UtxoEntry.merged entry Mergeable append
  rw [UtxoEntry.parse_pushed config a.ranges ha.value, UtxoEntry.parse_pushed config b.ranges hb.value]
  obtain ⟨sats, addresses⟩ := config
  cases sats <;> cases addresses <;>
    simp [ParsedUtxoEntry.satRanges, ParsedUtxoEntry.totalValue, hstore, UtxoEntry.pushed]
  all_goals split <;> simp_all

theorem Valid.append {a b : Contents} (ha : a.Valid) (hb : b.Valid) : (a.append b).Valid := by
  refine ⟨fun range hrange => ?_, (by decide : 0 < 2 ^ 64)⟩
  rcases List.mem_append.mp hrange with hrange | hrange
  · exact ha.ranges range hrange
  · exact hb.ranges range hrange

theorem valid_empty : empty.Valid := ⟨by simp [empty], by decide⟩

theorem mergeable_append (config : IndexConfig) (a b : Contents) :
    (a.append b).Mergeable config :=
  ⟨fun _ => rfl, fun _ => rfl⟩

theorem mergeable_empty (config : IndexConfig) : empty.Mergeable config :=
  ⟨fun _ => rfl, fun _ => rfl⟩

/-- The value and the script of a mergeable entry are those of a merged one. -/
theorem entry_of_mergeable {config : IndexConfig} {contents : Contents}
    (h : contents.Mergeable config) :
    UtxoEntry.pushed config contents.ranges 0 [] = contents.entry config := by
  obtain ⟨hvalue, hscript⟩ := h
  unfold entry UtxoEntry.pushed
  cases hsats : config.indexSats <;> cases haddresses : config.indexAddresses <;>
    simp_all

/-- Merging is associative. -/
theorem merged_assoc {config : IndexConfig} {a b c : Contents} (ha : a.Valid) (hb : b.Valid)
    (hc : c.Valid) :
    (UtxoEntry.merged config (a.entry config) (b.entry config)).bind
        (fun ab => UtxoEntry.merged config ab (c.entry config)) =
      (UtxoEntry.merged config (b.entry config) (c.entry config)).bind
        (fun bc => UtxoEntry.merged config (a.entry config) bc) := by
  rw [merged_entry ha hb, merged_entry hb hc]
  have hleft := @merged_entry config _ _ (ha.append hb) hc
  have hright := @merged_entry config _ _ ha (hb.append hc)
  have hsame : (a.append b).append c = a.append (b.append c) := by simp [append]
  by_cases hma : a.Mergeable config
  · by_cases hmb : b.Mergeable config
    · by_cases hmc : c.Mergeable config
      · rw [if_pos ⟨hma, hmb⟩, if_pos ⟨hmb, hmc⟩, Option.bind_some, Option.bind_some, hleft, hright,
          if_pos ⟨mergeable_append config a b, hmc⟩, if_pos ⟨hma, mergeable_append config b c⟩, hsame]
      · rw [if_pos ⟨hma, hmb⟩, if_neg (fun h => hmc h.2), Option.bind_some, hleft,
          if_neg (fun h => hmc h.2), Option.bind_none]
    · rw [if_neg (fun h => hmb h.2), if_neg (fun h => hmb h.1), Option.bind_none, Option.bind_none]
  · rw [if_neg (fun h => hma h.1), Option.bind_none]
    by_cases hbc : b.Mergeable config ∧ c.Mergeable config
    · rw [if_pos hbc, Option.bind_some, hright, if_neg (fun h => hma h.1)]
    · rw [if_neg hbc, Option.bind_none]

/-- The empty entry is a unit for entries that merge. -/
theorem merged_empty {config : IndexConfig} {contents : Contents} (h : contents.Valid)
    (hmerge : contents.Mergeable config) :
    UtxoEntry.merged config (UtxoEntry.empty config) (contents.entry config) =
        some (contents.entry config) ∧
      UtxoEntry.merged config (contents.entry config) (UtxoEntry.empty config) =
        some (contents.entry config) := by
  have hempty : UtxoEntry.empty config = Contents.empty.entry config := rfl
  have hunit := entry_of_mergeable hmerge
  rw [hempty, merged_entry valid_empty h, merged_entry h valid_empty,
    if_pos ⟨mergeable_empty config, hmerge⟩, if_pos ⟨hmerge, mergeable_empty config⟩]
  constructor
  · exact congrArg some hunit
  · rw [← hunit]
    simp [append, entry, empty]

/-- What an entry of these contents parses to. -/
def parsed (config : IndexConfig) (contents : Contents) : ParsedUtxoEntry :=
  ⟨if config.indexSats then .ranges (SatRange.storeAll contents.ranges) else .value contents.value,
    if config.indexAddresses then some contents.scriptPubkey else none⟩

/-- The value, or the sum of the lengths of the ranges. -/
def amount (config : IndexConfig) (contents : Contents) : Nat :=
  if config.indexSats then lengths contents.ranges else contents.value

theorem total_parsed {config : IndexConfig} {contents : Contents} (h : contents.Valid) :
    (contents.parsed config).total =
      if contents.amount config < 2 ^ 64 then .ok (contents.amount config)
      else .error (.panic "attempt to add with overflow") := by
  have htotal : (contents.parsed config).totalValue = contents.amount config := by
    unfold parsed amount ParsedUtxoEntry.totalValue
    cases config.indexSats with
    | false => rfl
    | true => simp only [if_true, SatRange.loadAll_storeAll_of_storable h.ranges, lengths]
  rw [← htotal]
  refine ParsedUtxoEntry.total_eq fun value hvalue => ?_
  unfold parsed at hvalue
  split at hvalue
  · cases hvalue
  · cases hvalue
    exact h.value

end Contents

/-- A range within the sats of a block can be stored. -/
theorem storable_of_block {height : Nat} {range : SatRange}
    (hlo : Height.startingSat height ≤ range.1) (hle : range.1 ≤ range.2)
    (hhi : range.2 ≤ Height.startingSat height + Height.subsidy height) : range.Storable := by
  have hsupply := Height.startingSat_le_supply (height + 1)
  have hsubsidy := Height.subsidy_le height
  rw [Height.startingSat_succ] at hsupply
  have hbound : supply < 2 ^ 51 ∧ 50 * coinValue < 2 ^ 37 := by decide
  constructor
  · exact hle
  · omega
  · omega

/-- An entry parses to what was pushed on it, its ranges load as they were stored, its total is the sum
of their lengths as long as that fits, and entries merge by their ranges when `merged` takes them. -/
theorem entry_roundTrip (config : IndexConfig) (a b c : Contents) (ha : a.Valid) (hb : b.Valid)
    (hc : c.Valid) :
    UtxoEntry.parse config (a.entry config) = some (a.parsed config) ∧
    SatRange.loadAll (SatRange.storeAll a.ranges) = a.ranges ∧
    (∀ range ∈ a.ranges, SatRange.load range.store = range) ∧
    (∀ height, ∀ range : SatRange, Height.startingSat height ≤ range.1 → range.1 ≤ range.2 →
      range.2 ≤ Height.startingSat height + Height.subsidy height →
      SatRange.load (SatRange.store range) = range) ∧
    (a.parsed config).total =
      (if a.amount config < 2 ^ 64 then .ok (a.amount config)
        else .error (.panic "attempt to add with overflow")) ∧
    (UtxoEntry.merged config (a.entry config) (b.entry config)).bind (UtxoEntry.parse config) =
      (if a.Mergeable config ∧ b.Mergeable config then some ((a.append b).parsed config) else none) ∧
    (UtxoEntry.merged config (a.entry config) (b.entry config)).bind
        (fun ab => UtxoEntry.merged config ab (c.entry config)) =
      (UtxoEntry.merged config (b.entry config) (c.entry config)).bind
        (fun bc => UtxoEntry.merged config (a.entry config) bc) ∧
    (a.Mergeable config →
      UtxoEntry.merged config (UtxoEntry.empty config) (a.entry config) = some (a.entry config) ∧
        UtxoEntry.merged config (a.entry config) (UtxoEntry.empty config) =
          some (a.entry config)) := by
  have hparse : ∀ contents : Contents, contents.Valid →
      UtxoEntry.parse config (contents.entry config) = some (contents.parsed config) :=
    fun contents h => UtxoEntry.parse_pushed config contents.ranges h.value contents.scriptPubkey
  refine ⟨hparse a ha, SatRange.loadAll_storeAll_of_storable ha.ranges, ?_, ?_,
    Contents.total_parsed ha, ?_, Contents.merged_assoc ha hb hc, Contents.merged_empty ha⟩
  · exact fun range hrange => SatRange.load_store_of_storable (ha.ranges range hrange)
  · intro height range hlo hle hhi
    exact SatRange.load_store_of_storable (storable_of_block hlo hle hhi)
  · rw [Contents.merged_entry ha hb]
    split
    · exact hparse _ (ha.append hb)
    · rfl

/-- Two ranges, one of them empty, and a script. -/
def scripted : Contents := ⟨[(0, 5000000000), (7, 7)], 0, [0x51]⟩

theorem entry_roundTrip_scripted :
    UtxoEntry.parse ⟨true, true⟩ (scripted.entry ⟨true, true⟩) =
      some (scripted.parsed ⟨true, true⟩) :=
  have hvalid : scripted.Valid := by
    refine ⟨fun range hrange => ?_, by decide⟩
    rcases List.mem_cons.mp hrange with rfl | hrange
    · exact ⟨by decide, by decide, by decide⟩
    · rw [List.mem_singleton.mp hrange]
      exact ⟨by decide, by decide, by decide⟩
  (entry_roundTrip ⟨true, true⟩ scripted scripted scripted hvalid hvalid hvalid).1

/-- Entries with scripts do not merge, and a total of too many sats does not fit. -/
theorem not_merged_scripted :
    UtxoEntry.merged ⟨true, true⟩ (scripted.entry ⟨true, true⟩) (scripted.entry ⟨true, true⟩) = none ∧
    ∃ ranges : List SatRange, (∀ range ∈ ranges, range.Storable) ∧
      (Contents.parsed ⟨true, false⟩ ⟨ranges, 0, []⟩).total ≠ .ok (lengths ranges) := by
  obtain ⟨count, hcount⟩ : ∃ count, count = 2 ^ 27 + 1 := ⟨_, rfl⟩
  have hstorable : ∀ range ∈ List.replicate count ((0, 2 ^ 37 - 1) : SatRange),
      SatRange.Storable range := by
    intro range hrange
    rw [List.eq_of_mem_replicate hrange]
    exact ⟨by decide, by decide, by decide⟩
  refine ⟨by decide +kernel, List.replicate count (0, 2 ^ 37 - 1), hstorable, ?_⟩
  have hlarge : ¬lengths (List.replicate count ((0, 2 ^ 37 - 1) : SatRange)) < 2 ^ 64 := by
    rw [lengths_replicate, hcount]
    decide
  intro htotal
  rw [Contents.total_parsed ⟨hstorable, Nat.two_pow_pos 64⟩] at htotal
  split at htotal
  · rename_i hsmall
    exact hlarge hsmall
  · cases htotal

end Lord.Index
