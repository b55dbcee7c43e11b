import Lord.Lib.LittleEndian
import Lord.Lib.Varint

/-! The entry of an unspent output in the index: its sat ranges or its value, and its script pubkey. -/

namespace Lord.Index

structure IndexConfig where
  indexSats : Bool
  indexAddresses : Bool

/-! ### Sat ranges -/

/-- The sats from the first number up to the second one, which is not among them. -/
abbrev SatRange := Nat × Nat

namespace SatRange

/-- 51 bits of the start and 37 bits of the length, in eleven bytes. -/
def store (range : SatRange) : Bytes :=
  LittleEndian.encode 11 ((range.2 - range.1) <<< 51 ||| range.1)

def load (bytes : Bytes) : SatRange :=
  let base := LittleEndian.decode (bytes.take 7) &&& (2 ^ 51 - 1)
  let delta := LittleEndian.decode (bytes.drop 6) >>> 3
  (base, base + delta)

/-- A range that its eleven bytes can tell. -/
structure Fits (range : SatRange) : Prop where
  lt : range.1 < range.2
  start_lt : range.1 < 2 ^ 51
  length_lt : range.2 - range.1 < 2 ^ 37

/-- A range, possibly empty, that its eleven bytes can tell. -/
structure Storable (range : SatRange) : Prop where
  le : range.1 ≤ range.2
  start_lt : range.1 < 2 ^ 51
  length_lt : range.2 - range.1 < 2 ^ 37

theorem Fits.storable {range : SatRange} (h : range.Fits) : range.Storable :=
  ⟨h.lt.le, h.start_lt, h.length_lt⟩

@[simp] theorem length_store (range : SatRange) : range.store.length = 11 :=
  LittleEndian.length_encode _ _

theorem load_store_of_storable {range : SatRange} (h : range.Storable) :
    load range.store = range := by
  obtain ⟨start, stop⟩ := range
  obtain ⟨hle, hstart, hlength⟩ := h
  dsimp only at hle hstart hlength
  have hbits : (stop - start) <<< 51 ||| start = (stop - start) * 2 ^ 51 + start := by
    rw [← Nat.shiftLeft_add_eq_or_of_lt hstart, Nat.shiftLeft_eq]
  unfold load store
  dsimp only
  rw [hbits, LittleEndian.take_encode (by decide), LittleEndian.drop_encode,
    LittleEndian.decode_encode_mod, LittleEndian.decode_encode_mod, Nat.and_two_pow_sub_one_eq_mod,
    Nat.shiftRight_eq_div_pow]
  refine Prod.ext ?_ ?_ <;> dsimp only <;> omega

theorem load_store {range : SatRange} (h : range.Fits) : load range.store = range :=
  load_store_of_storable h.storable

/-- `chunks_exact(11)`. -/
def chunks (bytes : Bytes) : List Bytes :=
  if bytes.length < 11 then [] else bytes.take 11 :: chunks (bytes.drop 11)
termination_by bytes.length
decreasing_by rw [List.length_drop]; omega

def loadAll (bytes : Bytes) : List SatRange := (chunks bytes).map load

def storeAll (ranges : List SatRange) : Bytes := ranges.flatMap store

@[simp] theorem length_storeAll (ranges : List SatRange) :
    (storeAll ranges).length = ranges.length * 11 := by
  simp [storeAll, List.length_flatMap]

theorem loadAll_storeAll_of_storable {ranges : List SatRange}
    (h : ∀ range ∈ ranges, range.Storable) : loadAll (storeAll ranges) = ranges := by
  induction ranges with
  | nil =>
    rw [storeAll, List.flatMap_nil, loadAll, chunks]
    rfl
  | cons range rest ih =>
    have hlength : ¬(range.store ++ storeAll rest).length < 11 := by
      rw [List.length_append, length_store]
      omega
    have hrest := ih fun r hr => h r (List.mem_cons_of_mem _ hr)
    rw [loadAll] at hrest
    show (chunks (range.store ++ storeAll rest)).map load = _
    rw [chunks, if_neg hlength, List.take_left' (length_store range),
      List.drop_left' (length_store range), List.map_cons, hrest,
      load_store_of_storable (h range List.mem_cons_self)]

theorem loadAll_storeAll {ranges : List SatRange} (h : ∀ range ∈ ranges, range.Fits) :
    loadAll (storeAll ranges) = ranges :=
  loadAll_storeAll_of_storable fun range hrange => (h range hrange).storable

end SatRange

/-! ### Entries -/

inductive Sats where
  | ranges (bytes : Bytes)
  | value (value : Nat)
  deriving Repr, DecidableEq

structure ParsedUtxoEntry where
  sats : Sats
  scriptPubkey : Option Bytes
  deriving Repr, DecidableEq

namespace ParsedUtxoEntry

/-- What `total_value` adds up; `total` is its sum in `u64`. -/
def totalValue (entry : ParsedUtxoEntry) : Nat :=
  match entry.sats with
  | .value value => value
  | .ranges bytes => ((SatRange.loadAll bytes).map fun range => range.2 - range.1).sum

/-- `sat_ranges`, which panics on an entry without them. -/
def satRanges (entry : ParsedUtxoEntry) : Option Bytes :=
  match entry.sats with
  | .ranges bytes => some bytes
  | .value _ => none

end ParsedUtxoEntry

namespace UtxoEntry

def pushValue (entry : Bytes) (value : Nat) : Bytes := entry ++ Varint.encode value

def pushSatRanges (entry satRanges : Bytes) : Bytes :=
  entry ++ (Varint.encode (satRanges.length / 11) ++ satRanges)

def pushScriptPubkey (entry scriptPubkey : Bytes) : Bytes :=
  entry ++ (Varint.encode scriptPubkey.length ++ scriptPubkey)

/-- `UtxoEntry::parse`: none where it panics.  A number that takes more than nineteen bytes, which
the source refuses, is none that an entry is built with. -/
def parse (config : IndexConfig) (bytes : Bytes) : Option ParsedUtxoEntry := do
  let (number, rest) ← Varint.decode bytes
  let (sats, rest) ← if config.indexSats then
      if rest.length < number * 11 then none
      else some (Sats.ranges (rest.take (number * 11)), rest.drop (number * 11))
    else
      if 2 ^ 64 ≤ number then none else some (Sats.value number, rest)
  if config.indexAddresses then
    let (length, rest) ← Varint.decode rest
    if rest.length < length then none else some ⟨sats, some (rest.take length)⟩
  else
    some ⟨sats, none⟩

def empty (config : IndexConfig) : Bytes :=
  let sats := if config.indexSats then pushSatRanges [] [] else pushValue [] 0
  if config.indexAddresses then pushScriptPubkey sats [] else sats

/-- `UtxoEntryBuf::merged`: none where it panics. -/
def merged (config : IndexConfig) (a b : Bytes) : Option Bytes := do
  let a ← parse config a
  let b ← parse config b
  let sats ← if config.indexSats then do
      let aRanges ← a.satRanges
      let bRanges ← b.satRanges
      some (pushSatRanges [] (aRanges ++ bRanges))
    else
      if a.totalValue = 0 ∧ b.totalValue = 0 then some (pushValue [] 0) else none
  if config.indexAddresses then
    if a.scriptPubkey = some [] ∧ b.scriptPubkey = some [] then some (pushScriptPubkey sats [])
    else none
  else
    some sats

/-- The entry that is pushed for an output. -/
def pushed (config : IndexConfig) (ranges : List SatRange) (value : Nat) (scriptPubkey : Bytes) :
    Bytes :=
  let sats := if config.indexSats then pushSatRanges [] (SatRange.storeAll ranges)
    else pushValue [] value
  if config.indexAddresses then pushScriptPubkey sats scriptPubkey else sats

/-- A pushed entry parses to what was pushed. -/
theorem parse_pushed (config : IndexConfig) (ranges : List SatRange) {value : Nat}
    (hvalue : value < 2 ^ 64) (scriptPubkey : Bytes) :
    parse config (pushed config ranges value scriptPubkey) = some
      ⟨if config.indexSats then .ranges (SatRange.storeAll ranges) else .value value,
        if config.indexAddresses then some scriptPubkey else none⟩ := by
  obtain ⟨sats, addresses⟩ := config
  have hvalue' : value < 18446744073709551616 := hvalue
  have hplain : ∀ n, Varint.decode (Varint.encode n) = some (n, []) := fun n => by
    simpa using Varint.decode_encode n []
  cases sats <;> cases addresses <;>
    simp [parse, pushed, pushSatRanges, pushValue, pushScriptPubkey, hvalue', hplain,
      Varint.decode_encode, List.take_left', List.drop_left', List.append_assoc]

theorem empty_eq (config : IndexConfig) : empty config = pushed config [] 0 [] := rfl

/-- Merged entries without script keep the ranges of both in order. -/
theorem merged_pushed {config : IndexConfig} (hsats : config.indexSats = true)
    (a b : List SatRange) :
    merged config (pushed config a 0 []) (pushed config b 0 []) =
      some (pushed config (a ++ b) 0 []) := by
  have hstore : SatRange.storeAll a ++ SatRange.storeAll b = SatRange.storeAll (a ++ b) := by
    simp [SatRange.storeAll]
  unfold merged
  rw [parse_pushed config a (by decide), parse_pushed config b (by decide)]
  cases haddresses : config.indexAddresses <;>
    simp [hsats, haddresses, ParsedUtxoEntry.satRanges, hstore, pushed]

end UtxoEntry

end Lord.Index
