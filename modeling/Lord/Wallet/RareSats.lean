import Lord.Index.ServedRanges
import Lord.Ordinals.RaritySupply
import Lord.Wallet.SatSearch

/-! The sats of the wallet that are not common.  Ranges are looked at by their starts only; over what the
index serves this misses none, since no stored range crosses into a second block. -/

namespace Lord.Sats

open Bitcoin Ordinals Index
open Notation (rarity)

structure OutputRare where
  sat : Nat
  output : OutPoint
  offset : Nat
  rarity : Rarity
  deriving Repr, DecidableEq

/-- The loop of `rare_sats` over the ranges of an output. -/
def rareInRanges (outpoint : OutPoint) (offset : Nat) : List SatRange → Outcome (List OutputRare)
  | [] => .ok []
  | (start, stop) :: rest => do
    let rarity ← rarity start
    let others ← rareInRanges outpoint (offset + (stop - start)) rest
    .ok (if rarity = .common then others else ⟨start, outpoint, offset, rarity⟩ :: others)

/-- `Sats::rare_sats`. -/
def rareSats : List (OutPoint × List SatRange) → Outcome (List OutputRare)
  | [] => .ok []
  | (outpoint, satRanges) :: rest => do
    let found ← rareInRanges outpoint 0 satRanges
    let others ← rareSats rest
    .ok (found ++ others)

/-- `Sats::run` without a file. -/
def runRare (wallet : Wallet) : Outcome (List OutputRare) := do
  if !wallet.hasSatIndex then
    .error (.err "sats requires index created with `--index-sats` flag")
  else
    let haystacks ← (getWalletSatRanges wallet).outcome
    rareSats haystacks

/-- The rows of `SAT_TO_SATPOINT`, which `rare_sat_satpoints` returns. -/
structure SatRows (tables : Tables) (rows : List (Nat × SatPoint)) : Prop where
  keys : (rows.map Prod.fst).Nodup
  table : ∀ sat point, (sat, point) ∈ rows ↔ tables.satToSatpoint sat = some point

/-- What the wallet knows of its outputs is what the server answers for them. -/
structure Served (env : Query.Env) (tables : Tables) (wallet : Wallet) : Prop where
  keys : (wallet.outputInfo.map Prod.fst).Nodup
  ranges : ∀ output ∈ wallet.outputInfo, Query.storedRanges env tables output.1 = .ok output.2

/-- The listing has each sat of the outputs that is not common once, with its place and rarity. -/
structure ListsRare (outputs : List (OutPoint × List SatRange)) (listed : List OutputRare) : Prop where
  placed : ∀ item ∈ listed, ∃ ranges, (item.output, ranges) ∈ outputs ∧
    (sats ranges)[item.offset]? = some item.sat ∧ rarity item.sat = .ok item.rarity ∧
      item.rarity ≠ .common
  complete : ∀ output ∈ outputs, ∀ offset sat, (sats output.2)[offset]? = some sat →
    rarity sat ≠ .ok .common → ∃ r, ⟨sat, output.1, offset, r⟩ ∈ listed
  once : (listed.map OutputRare.sat).Nodup

/-! ### Sats that are not common -/

theorem firstSat_iff_rarity {sat : Nat} (h : sat < supply) :
    FirstSat sat ↔ ∃ r, r ≠ Rarity.common ∧ rarity sat = .ok r := by
  constructor
  · rintro ⟨height, hpos, rfl⟩
    exact ⟨_, Notation.firstRarity_ne_common height,
      Notation.rarity_startingSat (Notation.subsidy_pos_iff.mp hpos)⟩
  · rintro ⟨r, hr, hrarity⟩
    obtain ⟨height, offset, hoffset, rfl⟩ := Notation.exists_block h
    rw [Notation.rarity_at hoffset] at hrarity
    split at hrarity
    · rename_i hzero
      exact ⟨height, Nat.zero_lt_of_lt hoffset, by rw [hzero, Nat.add_zero]⟩
    · exact absurd (Except.ok.inj hrarity).symm hr

theorem le_supply_of_inBlock {range : SatRange} (h : InBlock range) : range.2 ≤ supply := by
  obtain ⟨height, hlo, hlt, hhi⟩ := h
  have hle := Height.startingSat_le_supply (height + 1)
  rw [Height.startingSat_succ] at hle
  omega

/-! ### The listing -/

/-- What a haystack puts on the listing when its start has this rarity. -/
def rareOf (haystack : Haystack) : Outcome Rarity → Option OutputRare
  | .ok r => if r = .common then none else some ⟨haystack.start, haystack.outpoint, haystack.offset, r⟩
  | .error _ => none

def rareHaystack (haystack : Haystack) : Option OutputRare := rareOf haystack (rarity haystack.start)

theorem rareInRanges_eq (outpoint : OutPoint) (offset : Nat) {ranges : List SatRange}
    (h : ∀ range ∈ ranges, range.1 < supply) :
    rareInRanges outpoint offset ranges =
      .ok ((outputHaystacks outpoint offset ranges).filterMap rareHaystack) := by
  induction ranges generalizing offset with
  | nil => rfl
  | cons range rest ih =>
    obtain ⟨start, stop⟩ := range
    obtain ⟨r, hrarity, -⟩ := Notation.common_iff_rarity (h _ List.mem_cons_self)
    have hrare : rareHaystack ⟨start, stop, offset, outpoint⟩ =
        rareOf ⟨start, stop, offset, outpoint⟩ (.ok r) :=
      congrArg (rareOf ⟨start, stop, offset, outpoint⟩) hrarity
    rw [rareInRanges, hrarity, ok_bind, ih _ fun range hrange => h range (List.mem_cons_of_mem _ hrange),
      ok_bind, outputHaystacks, List.filterMap_cons, hrare, rareOf]
    split <;> rfl

theorem rareSats_eq {outputs : List (OutPoint × List SatRange)}
    (h : ∀ output ∈ outputs, ∀ range ∈ output.2, range.1 < supply) :
    rareSats outputs = .ok ((haystacksOf outputs).filterMap rareHaystack) := by
  induction outputs with
  | nil => rfl
  | cons output rest ih =>
    obtain ⟨outpoint, ranges⟩ := output
    have hcons : haystacksOf ((outpoint, ranges) :: rest) =
        outputHaystacks outpoint 0 ranges ++ haystacksOf rest := rfl
    rw [rareSats, rareInRanges_eq _ _ (h _ List.mem_cons_self), ok_bind,
      ih fun output houtput => h output (List.mem_cons_of_mem _ houtput), ok_bind, hcons,
      List.filterMap_append]

theorem rareOf_eq_some {haystack : Haystack} {outcome : Outcome Rarity} {item : OutputRare} :
    rareOf haystack outcome = some item ↔ item.sat = haystack.start ∧ item.output = haystack.outpoint ∧
      item.offset = haystack.offset ∧ item.rarity ≠ .common ∧ outcome = .ok item.rarity := by
  obtain ⟨sat, output, offset, r⟩ := item
  constructor
  · intro h
    unfold rareOf at h
    split at h
    · split at h
      · cases h
      · rename_i hne
        obtain ⟨rfl, rfl, rfl, rfl⟩ := OutputRare.mk.inj (Option.some.inj h)
        exact ⟨rfl, rfl, rfl, hne, rfl⟩
    · cases h
  · rintro ⟨rfl, rfl, rfl, hne, rfl⟩
    exact if_neg hne

/-- An item of the listing. -/
theorem rareHaystack_eq_some {haystack : Haystack} {item : OutputRare} :
    rareHaystack haystack = some item ↔ item.sat = haystack.start ∧ item.output = haystack.outpoint ∧
      item.offset = haystack.offset ∧ item.rarity ≠ .common ∧
        rarity haystack.start = .ok item.rarity :=
  rareOf_eq_some

/-! ### Ranges of one block each -/

/-- A sat of ranges lies in one of them. -/
theorem getElem?_sats {ranges : List SatRange} {i sat : Nat} (h : (sats ranges)[i]? = some sat) :
    ∃ front range back, ranges = front ++ range :: back ∧ range.1 ≤ sat ∧ sat < range.2 ∧
      i = total front + (sat - range.1) := by
  induction ranges generalizing i with
  | nil => cases h
  | cons range rest ih =>
    rw [sats_cons] at h
    by_cases hin : i < (List.range' range.1 (range.2 - range.1)).length
    · rw [List.getElem?_append_left hin] at h
      rw [List.length_range'] at hin
      rw [List.getElem?_range' hin, Option.some.injEq] at h
      exact ⟨[], range, rest, rfl, by omega, by omega, by rw [total_nil]; omega⟩
    · rw [List.getElem?_append_right (Nat.not_lt.mp hin), List.length_range'] at h
      rw [List.length_range'] at hin
      obtain ⟨front, found, back, rfl, hlo, hhi, hi⟩ := ih h
      exact ⟨range :: front, found, back, rfl, hlo, hhi, by rw [total_cons]; omega⟩

/-- The start of a range lies behind the ranges in front of it. -/
theorem getElem?_sats_start {front back : List SatRange} {range : SatRange} (h : range.1 < range.2) :
    (sats (front ++ range :: back))[total front]? = some range.1 := by
  rw [sats_append, List.getElem?_append_right (by rw [length_sats]), length_sats, Nat.sub_self, sats_cons,
    List.getElem?_append_left (by rw [List.length_range']; omega), List.getElem?_range' (by omega)]
  simp

/-- Ranges that are not empty have their starts among their sats. -/
theorem starts_sublist {ranges : List SatRange} (h : ∀ range ∈ ranges, range.1 < range.2) :
    (ranges.map Prod.fst).Sublist (sats ranges) := by
  induction ranges with
  | nil => exact .slnil
  | cons range rest ih =>
    have hlt := h range List.mem_cons_self
    obtain ⟨size, hsize⟩ := Nat.exists_eq_succ_of_ne_zero (show range.2 - range.1 ≠ 0 by omega)
    rw [List.map_cons, sats_cons, hsize, List.range'_succ, List.cons_append]
    refine .cons_cons _ (.trans ?_ (List.sublist_append_right _ _))
    exact ih fun range hrange => h range (List.mem_cons_of_mem _ hrange)

/-- The sats of the listing are starts of haystacks, in their order. -/
theorem sats_sublist (haystacks : List Haystack) :
    ((haystacks.filterMap rareHaystack).map OutputRare.sat).Sublist
      (haystacks.map Haystack.start) := by
  induction haystacks with
  | nil => exact .slnil
  | cons haystack rest ih =>
    rw [List.filterMap_cons, List.map_cons]
    split
    · exact .cons _ ih
    · rename_i item hrare
      rw [List.map_cons, (rareHaystack_eq_some.mp hrare).1]
      exact .cons_cons _ ih

/-- Of outputs whose ranges lie in one block each, and have no sat twice, the listing is right. -/
theorem listsRare {outputs : List (OutPoint × List SatRange)}
    (hblocks : ∀ output ∈ outputs, ∀ range ∈ output.2, InBlock range)
    (hnodup : (outputs.flatMap fun output => sats output.2).Nodup) :
    ListsRare outputs ((haystacksOf outputs).filterMap rareHaystack) := by
  constructor
  · intro item hitem
    obtain ⟨haystack, hhaystack, hrare⟩ := List.mem_filterMap.mp hitem
    obtain ⟨hsat, houtput, hoffset, hne, hrarity⟩ := rareHaystack_eq_some.mp hrare
    obtain ⟨front, back, hmem, htotal⟩ := mem_haystacksOf.mp hhaystack
    refine ⟨_, houtput ▸ hmem, ?_, hsat ▸ hrarity, hne⟩
    rw [hsat, hoffset, htotal]
    exact getElem?_sats_start (hblocks _ hmem (haystack.start, haystack.stop) (by simp)).lt
  · rintro ⟨outpoint, ranges⟩ houtput offset sat hsat hcommon
    obtain ⟨front, range, back, rfl, hlo, hhi, hoffset⟩ := getElem?_sats hsat
    have hin := hblocks _ houtput range (by simp)
    have hsupply : sat < supply := Nat.lt_of_lt_of_le hhi (le_supply_of_inBlock hin)
    obtain ⟨r, hrarity, -⟩ := Notation.common_iff_rarity hsupply
    have hne : r ≠ .common := by
      rintro rfl
      exact hcommon hrarity
    -- only the start of the range may be the first sat of a block
    have hstart : sat = range.1 := hin.eq_start ((firstSat_iff_rarity hsupply).mpr ⟨r, hne, hrarity⟩)
      hlo hhi
    refine ⟨r, List.mem_filterMap.mpr ⟨⟨range.1, range.2, total front, outpoint⟩,
      mem_haystacksOf.mpr ⟨front, back, houtput, rfl⟩, rareHaystack_eq_some.mpr ?_⟩⟩
    rw [hstart, Nat.sub_self] at hoffset
    exact ⟨hstart, rfl, hoffset, hne, hstart ▸ hrarity⟩
  · have hstarts : (haystacksOf outputs).map Haystack.start =
        (outputs.flatMap Prod.snd).map Prod.fst := by
      rw [← ranges_haystacksOf, List.map_map]
      rfl
    have hflat : outputs.flatMap (fun output => sats output.2) = sats (outputs.flatMap Prod.snd) :=
      List.flatMap_assoc.symm
    refine (sats_sublist _).nodup ?_
    rw [hstarts]
    rw [hflat] at hnodup
    refine (starts_sublist fun range hrange => ?_).nodup hnodup
    obtain ⟨output, houtput, hin⟩ := List.mem_flatMap.mp hrange
    exact (hblocks output houtput range hin).lt

/-! ### The index of a chain -/

section Chain

variable {env : Query.Env} {chain : ChainState} {ledger : Ledger} {s : IndexState}

theorem rangesAt_inBlock (h : Conserved chain.height chain ledger []) (outpoint : OutPoint) :
    ∀ range ∈ rangesAt chain ledger outpoint, InBlock range := by
  unfold rangesAt
  split
  · exact h.lost_inBlock
  · split
    · rename_i hmem
      exact h.held_inBlock outpoint hmem
    · simp

/-- The wallet's ranges are those of the chain. -/
theorem Served.outputs (h : Settled env.config chain ledger s) (hsats : env.config.indexSats = true)
    {wallet : Wallet} (hserved : Served env s.tables wallet)
    {outputs : List (OutPoint × List SatRange)} (hwallet : getWalletSatRanges wallet = .ok outputs) :
    wallet.hasSatIndex = true ∧ (outputs.map Prod.fst).Nodup ∧
      ∀ output ∈ outputs, output.2 = rangesAt chain ledger output.1 := by
  rw [getWalletSatRanges] at hwallet
  split at hwallet
  · rename_i hindex
    have hinfo := collectSatRanges_eq_ok.mp hwallet
    have hkeys := hserved.keys
    rw [hinfo, List.map_map] at hkeys
    refine ⟨hindex, hkeys, fun output houtput => h.served hsats ?_⟩
    refine hserved.ranges (output.1, some output.2) ?_
    rw [hinfo]
    exact List.mem_map_of_mem houtput
  · cases hwallet

/-- The sats with rows are the first sats of the blocks so far. -/
theorem mem_satRows (h : Settled env.config chain ledger s) (hsats : env.config.indexSats = true)
    {satRows : List (Nat × SatPoint)} (hrows : SatRows s.tables satRows) (sat : Nat) :
    sat ∈ satRows.map Prod.fst ↔
      FirstSat sat ∧ sat < Height.startingSat s.tables.headers.length := by
  constructor
  · intro hmem
    obtain ⟨⟨_, point⟩, hrow, rfl⟩ := List.mem_map.mp hmem
    exact ((h.rows_iff hsats _ point).mp ((hrows.table _ point).mp hrow)).1
  · intro hfirst
    have hmined := hfirst.2
    rw [h.headers] at hmined
    obtain ⟨outpoint, hsat⟩ := h.conserved.mem_rangesAt_iff.mpr hmined
    obtain ⟨offset, hoffset⟩ := List.mem_iff_getElem?.mp hsat
    have hpoint := (h.rows_iff hsats sat ⟨outpoint, offset⟩).mpr ⟨hfirst, hoffset⟩
    exact List.mem_map_of_mem ((hrows.table sat _).mpr hpoint)

/-- The starts of the blocks that mine sats are different. -/
theorem startingSat_injOn : Set.InjOn Height.startingSat {height | height < 6930000} := by
  have hlt : ∀ {low high : Nat}, low < high → low < 6930000 →
      Height.startingSat low < Height.startingSat high := by
    intro low high hless hlow
    have hmono := Height.startingSat_mono (show low + 1 ≤ high from hless)
    have hpos := Notation.subsidy_pos_iff.mpr hlow
    rw [Height.startingSat_succ] at hmono
    omega
  intro left (hleft : left < 6930000) right (hright : right < 6930000) heq
  rcases Nat.lt_trichotomy left right with hless | hsame | hless
  · exact absurd heq (hlt hless hleft).ne
  · exact hsame
  · exact absurd heq (hlt hless hright).ne'

/-- The first sats of the blocks that mine any. -/
def blockStarts (blocks : Nat) : List Nat :=
  (List.range (min blocks 6930000)).map Height.startingSat

theorem nodup_blockStarts (blocks : Nat) : (blockStarts blocks).Nodup := by
  refine List.Nodup.map_on (fun left hleft right hright heq => ?_) List.nodup_range
  rw [List.mem_range] at hleft hright
  exact startingSat_injOn (show left < 6930000 by omega) (show right < 6930000 by omega) heq

theorem mem_blockStarts {blocks sat : Nat} :
    sat ∈ blockStarts blocks ↔ FirstSat sat ∧ sat < Height.startingSat blocks := by
  rw [firstSat_lt_iff, blockStarts, List.mem_map]
  constructor
  · rintro ⟨height, hlt, rfl⟩
    rw [List.mem_range] at hlt
    exact ⟨height, by omega, Notation.subsidy_pos_iff.mpr (by omega), rfl⟩
  · rintro ⟨height, hlt, hpos, rfl⟩
    have hbound := Notation.subsidy_pos_iff.mp hpos
    exact ⟨height, List.mem_range.mpr (by omega), rfl⟩

theorem length_satRows (h : Settled env.config chain ledger s) (hsats : env.config.indexSats = true)
    {satRows : List (Nat × SatPoint)} (hrows : SatRows s.tables satRows) :
    satRows.length = min s.tables.headers.length 6930000 := by
  have hperm : (satRows.map Prod.fst).Perm (blockStarts s.tables.headers.length) := by
    refine (List.perm_ext_iff_of_nodup hrows.keys (nodup_blockStarts _)).mpr fun sat => ?_
    rw [mem_satRows h hsats hrows, mem_blockStarts]
  rw [← List.length_map Prod.fst, hperm.length_eq, blockStarts, List.length_map, List.length_range]

/-- The rows that a table has for some keys. -/
def rowsOf (table : Nat → Option SatPoint) (keys : List Nat) : List (Nat × SatPoint) :=
  keys.filterMap fun sat => (table sat).map (Prod.mk sat)

theorem mem_rowsOf {table : Nat → Option SatPoint} {keys : List Nat} {sat : Nat} {point : SatPoint} :
    (sat, point) ∈ rowsOf table keys ↔ sat ∈ keys ∧ table sat = some point := by
  rw [rowsOf, List.mem_filterMap]
  constructor
  · rintro ⟨key, hkey, hrow⟩
    obtain ⟨found, hfound, heq⟩ := Option.map_eq_some_iff.mp hrow
    obtain ⟨rfl, rfl⟩ := Prod.mk.inj heq
    exact ⟨hkey, hfound⟩
  · rintro ⟨hkey, hfound⟩
    exact ⟨sat, hkey, Option.map_eq_some_iff.mpr ⟨point, hfound, rfl⟩⟩

theorem keys_rowsOf_sublist (table : Nat → Option SatPoint) (keys : List Nat) :
    ((rowsOf table keys).map Prod.fst).Sublist keys := by
  induction keys with
  | nil => exact .slnil
  | cons key rest ih =>
    rw [rowsOf, List.filterMap_cons]
    cases table key with
    | none => exact .cons _ ih
    | some point => exact .cons_cons _ ih

/-- An index of a chain has finitely many rows. -/
theorem satRows_rowsOf (h : Settled env.config chain ledger s) (hsats : env.config.indexSats = true) :
    SatRows s.tables (rowsOf s.tables.satToSatpoint (blockStarts s.tables.headers.length)) := by
  refine ⟨(keys_rowsOf_sublist _ _).nodup (nodup_blockStarts _), fun sat point => ?_⟩
  rw [mem_rowsOf, mem_blockStarts]
  exact ⟨And.right, fun hrow => ⟨((h.rows_iff hsats sat point).mp hrow).1, hrow⟩⟩

/-- In every index that a run over valid blocks leaves behind a commit, the rows of the table are the
sats mined so far that are not common, one for each block that mines any, and the wallet lists those that
lie in its outputs, each once and with the place that the table has for it. -/
theorem rareSats_listed (hsats : env.config.indexSats = true) {events : List Event} {order : CacheOrder}
    (hvalid : applyBlocks (eventBlocks events) = some chain)
    (hrun : runEvents env.config .start (events ++ [.commit order]) = .ok s)
    {satRows : List (Nat × SatPoint)} (hrows : SatRows s.tables satRows) {wallet : Wallet}
    (hserved : Served env s.tables wallet) {outputs : List (OutPoint × List SatRange)}
    (hwallet : getWalletSatRanges wallet = .ok outputs) :
    (∀ sat, sat ∈ satRows.map Prod.fst ↔ sat < Height.startingSat s.tables.headers.length ∧
        ∃ r, r ≠ .common ∧ rarity sat = .ok r) ∧
      satRows.length = min s.tables.headers.length 6930000 ∧
      ∃ listed, runRare wallet = .ok listed ∧ ListsRare outputs listed ∧
        ∀ item ∈ listed, (item.sat, ⟨item.output, item.offset⟩) ∈ satRows := by
  have h := settled_run hsats hvalid hrun
  obtain ⟨hindex, hkeys, hranges⟩ := hserved.outputs h hsats hwallet
  have hblocks : ∀ output ∈ outputs, ∀ range ∈ output.2, InBlock range := fun output houtput => by
    rw [hranges output houtput]
    exact rangesAt_inBlock h.conserved output.1
  have hmined : ∀ sat, sat < Height.startingSat s.tables.headers.length → sat < supply := fun sat hsat =>
    Nat.lt_of_lt_of_le hsat (Height.startingSat_le_supply _)
  have hnodup : (outputs.flatMap fun output => sats output.2).Nodup := by
    rw [List.nodup_flatMap]
    refine ⟨fun output houtput => ?_, ?_⟩
    · rw [hranges output houtput]
      exact h.conserved.nodup_rangesAt output.1
    · refine (List.pairwise_map.mp hkeys).imp_of_mem fun {a b} ha hb hne => ?_
      dsimp only [Function.onFun]
      rw [hranges a ha, hranges b hb]
      exact h.conserved.disjoint_rangesAt hne
  have hlists := listsRare hblocks hnodup
  refine ⟨fun sat => ?_, length_satRows h hsats hrows, _, ?_, hlists, fun item hitem => ?_⟩
  · rw [mem_satRows h hsats hrows, and_comm]
    exact and_congr_right fun hsat => firstSat_iff_rarity (hmined sat hsat)
  · rw [runRare, hindex, hwallet]
    refine rareSats_eq fun output houtput range hrange => ?_
    have hin := hblocks output houtput range hrange
    exact Nat.lt_of_lt_of_le hin.lt (le_supply_of_inBlock hin)
  · obtain ⟨ranges, hmem, hsat, hrarity, hne⟩ := hlists.placed item hitem
    have hsame := hranges _ hmem
    dsimp only at hsame
    rw [hsame] at hsat
    have hlt : item.sat < Height.startingSat s.tables.headers.length := by
      rw [h.headers]
      exact h.conserved.mem_rangesAt_iff.mp ⟨_, List.mem_of_getElem? hsat⟩
    have hfirst := (firstSat_iff_rarity (hmined _ hlt)).mpr ⟨_, hne, hrarity⟩
    exact (hrows.table _ _).mpr ((h.rows_iff hsats _ _).mpr ⟨⟨hfirst, hlt⟩, hsat⟩)

end Chain

/-! ### The sats of two blocks -/

/-- A server with the sat index. -/
def exampleEnv : Query.Env where
  config := ⟨true, false⟩
  settings := ⟨10, 2, 5000, none, 0, true, false⟩
  rows := fun _ => []
  genesisTxid := Bytes32.replicate 0
  genesisOutputs := []
  rawTransactionLookup := false
  getTxOut := fun _ _ => .ok none
  getRawTransactionInfo := fun _ => .ok none
  secondsFromNow := fun _ => .ok 0
  realDiskSize := .ok 0

/-- A block whose coinbase claims twenty coins of fifty. -/
def exampleBlocks : List Event := [.block (coinbaseBlock 1 [⟨2000000000, [0x51]⟩])]

def exampleOutput : OutPoint := outpointAt (Bytes32.replicate 1) 0

/-- A wallet with the output of the block. -/
def exampleWallet : Wallet := ⟨true, [(exampleOutput, some [(0, 2000000000)])]⟩

/-- A run over valid blocks with the sat index does not fail. -/
theorem exists_run {events : List Event} {order : CacheOrder} {chain : ChainState}
    (hvalid : applyBlocks (eventBlocks events) = some chain) :
    ∃ s, runEvents exampleEnv.config .start (events ++ [.commit order]) = .ok s := by
  rcases indexed_run (show (exampleEnv.config.indexAddresses || exampleEnv.config.indexSats) = true
    from rfl) (show (applyBlocks (eventBlocks (events ++ [.commit order]))).isSome = true by
      rw [eventBlocks_concat_commit, hvalid]; rfl) with ⟨s, hrun, -⟩ | ⟨haddresses, -⟩
  · exact ⟨s, hrun⟩
  · cases haddresses

/-- The index of the block, and the wallet with what it serves. -/
theorem exampleBlocks_served :
    ∃ chain s, applyBlocks (eventBlocks exampleBlocks) = some chain ∧
      runEvents exampleEnv.config .start (exampleBlocks ++ [.commit .asListed]) = .ok s ∧
      chain.utxos.lookup exampleOutput = some ⟨2000000000, [0x51]⟩ ∧
      Served exampleEnv s.tables exampleWallet := by
  obtain ⟨chain, hvalid⟩ := Option.isSome_iff_exists.mp
    (show (applyBlocks (eventBlocks exampleBlocks)).isSome = true by decide +kernel)
  obtain ⟨s, hrun⟩ := @exists_run _ .asListed _ hvalid
  have h : Settled exampleEnv.config chain _ s := settled_run rfl hvalid hrun
  have hchain : (applyBlocks (eventBlocks exampleBlocks)).map (fun chain =>
      chain.utxos.lookup exampleOutput) = some (some ⟨2000000000, [0x51]⟩) := by decide +kernel
  rw [hvalid] at hchain
  have hlookup : chain.utxos.lookup exampleOutput = some ⟨2000000000, [0x51]⟩ :=
    Option.some.inj hchain
  have hmem : exampleOutput ∈ chain.utxos := AList.lookup_isSome.mp (by rw [hlookup]; rfl)
  have hranges : rangesAt chain (ledgerBlocks (eventBlocks exampleBlocks)).2 exampleOutput =
      [(0, 2000000000)] := by
    rw [rangesAt, if_neg (by decide), if_pos hmem]
    decide +kernel
  refine ⟨chain, s, hvalid, hrun, hlookup, by simp [exampleWallet], ?_⟩
  intro output houtput
  rw [List.mem_singleton.mp houtput]
  dsimp only
  rw [h.serves rfl hmem, hranges]

/-- A second block, which claims the same and moves the first output into two. -/
def movedBlock : BlockData :=
  let mined := coinbaseBlock 2 [⟨2000000000, [0x51]⟩]
  let tx : Transaction := ⟨1, 0, [⟨exampleOutput, [], 0, []⟩],
    [⟨1500000000, [0x51]⟩, ⟨500000000, [0x52]⟩]⟩
  { mined with txdata := mined.txdata ++ [(tx, Bytes32.replicate 3)] }

def movedBlocks : List Event := exampleBlocks ++ [.commit .asListed, .block movedBlock]

/-- What the second block leaves unspent, with its ranges. -/
def movedOutputs : List (OutPoint × List SatRange) :=
  [(outpointAt (Bytes32.replicate 3) 1, [(1500000000, 2000000000)]),
    (outpointAt (Bytes32.replicate 2) 0, [(5000000000, 7000000000)]),
    (outpointAt (Bytes32.replicate 3) 0, [(0, 1500000000)])]

def movedWallet : Wallet := ⟨true, movedOutputs.map fun output => (output.1, some output.2)⟩

theorem movedWallet_served {chain : ChainState} {s : IndexState}
    (hvalid : applyBlocks (eventBlocks movedBlocks) = some chain)
    (h : Settled exampleEnv.config chain (ledgerBlocks (eventBlocks movedBlocks)).2 s) :
    Served exampleEnv s.tables movedWallet := by
  have hunspent : (applyBlocks (eventBlocks movedBlocks)).all (fun chain =>
      movedOutputs.all fun output => (chain.utxos.lookup output.1).isSome) = true := by decide +kernel
  have hranges : ∀ output ∈ movedOutputs, output.1 ≠ OutPoint.null ∧
      (ledgerBlocks (eventBlocks movedBlocks)).2.ranges output.1 = output.2 := by decide +kernel
  rw [hvalid] at hunspent
  refine ⟨by decide, fun known hknown => ?_⟩
  obtain ⟨output, houtput, rfl⟩ := List.mem_map.mp hknown
  have hmem := AList.lookup_isSome.mp (List.all_eq_true.mp hunspent output houtput)
  obtain ⟨hnull, hledger⟩ := hranges output houtput
  rw [h.serves rfl hmem, rangesAt, if_neg hnull, if_pos hmem, hledger]

/-- The first sats of both blocks are listed, that of the first block where the transfer took it. -/
theorem rareSats_listed_example :
    ∃ s satRows, runEvents exampleEnv.config .start (movedBlocks ++ [.commit .asListed]) = .ok s ∧
      SatRows s.tables satRows ∧ satRows.length = 2 ∧
      runRare movedWallet = .ok [⟨5000000000, outpointAt (Bytes32.replicate 2) 0, 0, .uncommon⟩,
        ⟨0, outpointAt (Bytes32.replicate 3) 0, 0, .mythic⟩] ∧
      (0, ⟨outpointAt (Bytes32.replicate 3) 0, 0⟩) ∈ satRows ∧
      (5000000000, ⟨outpointAt (Bytes32.replicate 2) 0, 0⟩) ∈ satRows := by
  obtain ⟨chain, hvalid⟩ := Option.isSome_iff_exists.mp
    (show (applyBlocks (eventBlocks movedBlocks)).isSome = true by decide +kernel)
  obtain ⟨s, hrun⟩ := @exists_run _ .asListed _ hvalid
  have h : Settled exampleEnv.config chain _ s := settled_run rfl hvalid hrun
  have hheight : (applyBlocks (eventBlocks movedBlocks)).map ChainState.height = some 2 := by
    decide +kernel
  rw [hvalid] at hheight
  have hheaders : s.tables.headers.length = 2 := h.headers.trans (Option.some.inj hheight)
  have hrare : runRare movedWallet = .ok [⟨5000000000, outpointAt (Bytes32.replicate 2) 0, 0, .uncommon⟩,
      ⟨0, outpointAt (Bytes32.replicate 3) 0, 0, .mythic⟩] := by decide +kernel
  have hrows := satRows_rowsOf h rfl
  have hwallet : getWalletSatRanges movedWallet = .ok movedOutputs := by decide
  obtain ⟨-, hlength, listed, hlisted, -, hplaces⟩ :=
    rareSats_listed rfl hvalid hrun hrows (movedWallet_served hvalid h) hwallet
  obtain rfl := Except.ok.inj (hrare.symm.trans hlisted)
  have htwo : min s.tables.headers.length 6930000 = 2 := by rw [hheaders]; rfl
  exact ⟨s, _, hrun, hrows, hlength.trans htwo, hrare, hplaces _ (.tail _ (.head _)), hplaces _ (.head _)⟩

end Lord.Sats
