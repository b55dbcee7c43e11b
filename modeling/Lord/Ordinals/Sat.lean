import Mathlib.Data.List.Basic
import Mathlib.Tactic.IntervalCases

/-! Satoshis, numbered in the order in which they are mined, and the epochs of their subsidy. -/

namespace Lord.Ordinals

def coinValue : Nat := 100000000

def subsidyHalvingInterval : Nat := 210000

/-- `Sat::SUPPLY`. -/
def supply : Nat := 2099999997690000

/-- `Epoch::STARTING_SATS`. -/
def startingSats : List Nat := [
  0,
  1050000000000000,
  1575000000000000,
  1837500000000000,
  1968750000000000,
  2034375000000000,
  2067187500000000,
  2083593750000000,
  2091796875000000,
  2095898437500000,
  2097949218750000,
  2098974609270000,
  2099487304530000,
  2099743652160000,
  2099871825870000,
  2099935912620000,
  2099967955890000,
  2099983977420000,
  2099991988080000,
  2099995993410000,
  2099997995970000,
  2099998997250000,
  2099999497890000,
  2099999748210000,
  2099999873370000,
  2099999935950000,
  2099999967240000,
  2099999982780000,
  2099999990550000,
  2099999994330000,
  2099999996220000,
  2099999997060000,
  2099999997480000,
  supply]

namespace Epoch

def firstPostSubsidy : Nat := 33

def subsidy (epoch : Nat) : Nat :=
  if epoch < firstPostSubsidy then (50 * coinValue) >>> epoch else 0

/-- The last entry of the table stands for every epoch after it. -/
def startingSat (epoch : Nat) : Nat := startingSats.getD epoch supply

def startingHeight (epoch : Nat) : Nat := epoch * subsidyHalvingInterval

/-- `Epoch::from(Sat)`: the first epoch that the next one starts behind the sat. -/
def ofSat (sat : Nat) : Nat := startingSats.tail.findIdx fun start => sat < start

/-- `Epoch::from(Height)`. -/
def ofHeight (height : Nat) : Nat := height / subsidyHalvingInterval

end Epoch

namespace Height

def subsidy (height : Nat) : Nat := Epoch.subsidy (Epoch.ofHeight height)

def startingSat (height : Nat) : Nat :=
  let epoch := Epoch.ofHeight height
  Epoch.startingSat epoch + (height - Epoch.startingHeight epoch) * Epoch.subsidy epoch

end Height

/-- Is this sat common or not?  The rewards of epochs 0 through 9 are all multiples of the reward of
epoch 9, which settles most sats. -/
def common (sat : Nat) : Bool :=
  if sat < Epoch.startingSat 10 ∧ sat % Epoch.subsidy 9 ≠ 0 then
    true
  else
    let epoch := Epoch.ofSat sat
    (sat - Epoch.startingSat epoch) % Epoch.subsidy epoch != 0

/-! ### The table of epochs -/

namespace Epoch

theorem startingSat_succ {epoch : Nat} (h : epoch < 33) :
    startingSat (epoch + 1) = startingSat epoch + subsidyHalvingInterval * subsidy epoch := by
  revert epoch
  decide

theorem startingSat_of_le {epoch : Nat} (h : 33 ≤ epoch) : startingSat epoch = supply := by
  obtain ⟨k, rfl⟩ := Nat.exists_eq_add_of_le h
  cases k with
  | zero => rfl
  | succ k =>
    have hlen : startingSats.length ≤ 33 + (k + 1) := by
      show 34 ≤ _
      omega
    simp [startingSat, hlen]

theorem subsidy_pos {epoch : Nat} (h : epoch < 33) : 0 < subsidy epoch := by
  revert epoch
  decide

theorem subsidy_le (epoch : Nat) : subsidy epoch ≤ 50 * coinValue := by
  unfold subsidy
  split
  · rw [Nat.shiftRight_eq_div_pow]
    exact Nat.div_le_self _ _
  · exact Nat.zero_le _

/-- Up to epoch 9 the rewards and the starts are multiples of the reward of epoch 9. -/
theorem dvd_of_lt_ten {epoch : Nat} (h : epoch < 10) :
    subsidy 9 ∣ subsidy epoch ∧ subsidy 9 ∣ startingSat epoch := by
  revert epoch
  decide

theorem startingSat_mono {a b : Nat} (h : a ≤ b) (hb : b ≤ 33) : startingSat a ≤ startingSat b := by
  induction b, h using Nat.le_induction with
  | base => exact le_rfl
  | succ b hab ih =>
    have := startingSat_succ (show b < 33 by omega)
    have := ih (by omega)
    omega

/-- A sat belongs to the epoch that it lies in. -/
theorem ofSat_eq {epoch sat : Nat} (h : epoch < 33) (hlo : startingSat epoch ≤ sat)
    (hhi : sat < startingSat (epoch + 1)) : ofSat sat = epoch := by
  have hget : ∀ i (hi : i < startingSats.tail.length),
      startingSats.tail[i] = startingSat (i + 1) := by decide
  have hlen : startingSats.tail.length = 33 := rfl
  rw [ofSat, List.findIdx_eq (by omega)]
  refine ⟨by rw [hget, decide_eq_true_eq]; exact hhi, fun j hj => ?_⟩
  have hmono := startingSat_mono (show j + 1 ≤ epoch by omega) (by omega)
  rw [hget, decide_eq_false_iff_not]
  omega

end Epoch

/-! ### The sats of a block -/

namespace Height

theorem epoch_lt {height : Nat} (h : 0 < subsidy height) : Epoch.ofHeight height < 33 := by
  by_contra hge
  have hzero : subsidy height = 0 := if_neg hge
  omega

theorem subsidy_le (height : Nat) : subsidy height ≤ 50 * coinValue := Epoch.subsidy_le _

/-- The sats of a block follow those of the block before it. -/
theorem startingSat_succ (height : Nat) :
    startingSat (height + 1) = startingSat height + subsidy height := by
  unfold startingSat subsidy Epoch.ofHeight Epoch.startingHeight
  dsimp only
  have hint : subsidyHalvingInterval = 210000 := rfl
  by_cases hsame : (height + 1) / subsidyHalvingInterval = height / subsidyHalvingInterval
  · rw [hsame]
    have hcount : height + 1 - height / subsidyHalvingInterval * subsidyHalvingInterval =
        height - height / subsidyHalvingInterval * subsidyHalvingInterval + 1 := by
      rw [hint]
      omega
    rw [hcount, Nat.add_mul, Nat.one_mul, Nat.add_assoc]
  · -- the next block opens an epoch
    have hnext : (height + 1) / subsidyHalvingInterval =
        height / subsidyHalvingInterval + 1 := by
      rw [hint] at hsame ⊢
      omega
    have hlast : height + 1 - (height / subsidyHalvingInterval + 1) * subsidyHalvingInterval = 0 ∧
        height - height / subsidyHalvingInterval * subsidyHalvingInterval + 1 =
          subsidyHalvingInterval := by
      rw [hint] at hsame ⊢
      omega
    rw [hnext, hlast.1, Nat.zero_mul, Nat.add_zero, Nat.add_assoc]
    generalize height / subsidyHalvingInterval = epoch at *
    by_cases hepoch : epoch < 33
    · rw [Epoch.startingSat_succ hepoch]
      congr 1
      rw [← Nat.succ_mul]
      exact congrArg (· * Epoch.subsidy epoch) hlast.2.symm
    · have hzero : Epoch.subsidy epoch = 0 := if_neg hepoch
      rw [hzero, Epoch.startingSat_of_le (by omega), Epoch.startingSat_of_le (by omega)]
      omega

theorem startingSat_mono {a b : Nat} (h : a ≤ b) : startingSat a ≤ startingSat b := by
  induction b, h using Nat.le_induction with
  | base => exact le_rfl
  | succ b hab ih =>
    rw [startingSat_succ]
    omega

theorem startingSat_of_late {height : Nat} (h : 33 ≤ Epoch.ofHeight height) :
    startingSat height = supply := by
  have hzero : Epoch.subsidy (Epoch.ofHeight height) = 0 := if_neg (Nat.not_lt.mpr h)
  rw [startingSat, hzero, Epoch.startingSat_of_le h, Nat.mul_zero, Nat.add_zero]

theorem startingSat_le_supply (height : Nat) : startingSat height ≤ supply := by
  have hlate : 33 ≤ Epoch.ofHeight (max height (33 * subsidyHalvingInterval)) :=
    (Nat.le_div_iff_mul_le (by decide)).mpr (Nat.le_max_right _ _)
  calc startingSat height ≤ startingSat (max height (33 * subsidyHalvingInterval)) :=
        startingSat_mono (Nat.le_max_left _ _)
    _ = supply := startingSat_of_late hlate

/-- Of the sats of a block only the first one is not common. -/
theorem common_iff {height sat : Nat} (hlo : startingSat height ≤ sat)
    (hhi : sat < startingSat height + subsidy height) :
    common sat = false ↔ sat = startingSat height := by
  have hepoch : Epoch.ofHeight height < 33 := epoch_lt (by omega)
  obtain ⟨k, rfl⟩ := Nat.exists_eq_add_of_le hlo
  rw [startingSat] at *
  rw [subsidy] at hhi
  have hblocks : height - Epoch.startingHeight (Epoch.ofHeight height) + 1 ≤
      subsidyHalvingInterval := by
    show height - height / 210000 * 210000 + 1 ≤ 210000
    omega
  generalize height - Epoch.startingHeight (Epoch.ofHeight height) = blocks at *
  generalize Epoch.ofHeight height = epoch at *
  have hnext := Epoch.startingSat_succ hepoch
  have hpos := Epoch.subsidy_pos hepoch
  have hroom : (blocks + 1) * Epoch.subsidy epoch ≤
      subsidyHalvingInterval * Epoch.subsidy epoch := Nat.mul_le_mul_right _ hblocks
  rw [Nat.add_mul, Nat.one_mul] at hroom
  have hof : Epoch.ofSat (Epoch.startingSat epoch + blocks * Epoch.subsidy epoch + k) = epoch :=
    Epoch.ofSat_eq hepoch (by omega) (by omega)
  have hmod : (Epoch.startingSat epoch + blocks * Epoch.subsidy epoch + k -
      Epoch.startingSat epoch) % Epoch.subsidy epoch = k := by
    rw [Nat.add_assoc, Nat.add_sub_cancel_left, Nat.mul_comm, Nat.mul_add_mod]
    exact Nat.mod_eq_of_lt (by omega)
  unfold common
  rw [hof]
  dsimp only
  rw [hmod]
  split
  · rename_i hcheck
    refine iff_of_false (by simp) fun hstart => hcheck.2 ?_
    -- the start of a block of epoch 9 or earlier is a multiple of the reward of epoch 9
    have hten : epoch < 10 := by
      by_contra hge
      have := Epoch.startingSat_mono (show 10 ≤ epoch by omega) (by omega)
      omega
    have ⟨hreward, hopen⟩ := Epoch.dvd_of_lt_ten hten
    rw [hstart]
    exact Nat.mod_eq_zero_of_dvd (Nat.dvd_add hopen (Dvd.dvd.mul_left hreward _))
  · simp only [bne_eq_false_iff_eq]
    omega

end Height

/-! ### The block of a sat -/

/-- A sat that is ever mined lies in an epoch. -/
theorem Epoch.exists_of_lt {sat epochs : Nat} (h : sat < startingSat epochs) :
    ∃ epoch < epochs, startingSat epoch ≤ sat ∧ sat < startingSat (epoch + 1) := by
  induction epochs with
  | zero => exact absurd h (Nat.not_lt_zero sat)
  | succ epochs ih =>
    rcases Nat.lt_or_ge sat (startingSat epochs) with hlt | hge
    · obtain ⟨epoch, hepoch, hsat⟩ := ih hlt
      exact ⟨epoch, by omega, hsat⟩
    · exact ⟨epochs, by omega, hge, h⟩

namespace Sat

/-- `Sat::height`: none where it divides by zero. -/
def height (sat : Nat) : Option Nat :=
  let epoch := Epoch.ofSat sat
  if Epoch.subsidy epoch = 0 then none
  else some (Epoch.startingHeight epoch + (sat - Epoch.startingSat epoch) / Epoch.subsidy epoch)

/-- A sat that is ever mined lies in the block of its height. -/
theorem height_spec {sat : Nat} (h : sat < supply) :
    ∃ height, Sat.height sat = some height ∧ Height.startingSat height ≤ sat ∧
      sat < Height.startingSat (height + 1) := by
  obtain ⟨epoch, hepoch, hlo, hhi⟩ := Epoch.exists_of_lt (show sat < Epoch.startingSat 33 from h)
  have hpos := Epoch.subsidy_pos hepoch
  have hnext := Epoch.startingSat_succ hepoch
  have hof := Epoch.ofSat_eq hepoch hlo hhi
  generalize hblocks : (sat - Epoch.startingSat epoch) / Epoch.subsidy epoch = blocks
  have hmul : blocks * Epoch.subsidy epoch ≤ sat - Epoch.startingSat epoch := by
    rw [← hblocks]
    exact Nat.div_mul_le_self _ _
  have hlt : sat - Epoch.startingSat epoch < (blocks + 1) * Epoch.subsidy epoch := by
    rw [← hblocks, Nat.add_mul, Nat.one_mul]
    exact Nat.lt_div_mul_add hpos
  have hbound : blocks < subsidyHalvingInterval := by
    by_contra hge
    have := Nat.mul_le_mul_right (Epoch.subsidy epoch) (Nat.not_lt.mp hge)
    omega
  have hepochOf : Epoch.ofHeight (Epoch.startingHeight epoch + blocks) = epoch := by
    have hint : subsidyHalvingInterval = 210000 := rfl
    rw [Epoch.ofHeight, Epoch.startingHeight]
    rw [hint] at hbound ⊢
    omega
  refine ⟨Epoch.startingHeight epoch + blocks, ?_, ?_, ?_⟩
  · rw [height, hof]
    rw [if_neg (by omega), hblocks]
  · rw [Height.startingSat, hepochOf]
    rw [Nat.add_sub_cancel_left]
    omega
  · rw [Height.startingSat_succ, Height.startingSat, Height.subsidy, hepochOf]
    rw [Nat.add_sub_cancel_left]
    rw [Nat.add_mul, Nat.one_mul] at hlt
    omega

/-- The sats before the first one of a block are those of the blocks before it. -/
theorem height_lt_iff {sat height : Nat} (h : sat < supply) (hheight : Sat.height sat = some height)
    (blocks : Nat) : height < blocks ↔ sat < Height.startingSat blocks := by
  obtain ⟨found, hfound, hlo, hhi⟩ := height_spec h
  obtain rfl : height = found := Option.some.inj (hheight.symm.trans hfound)
  constructor
  · intro hlt
    exact Nat.lt_of_lt_of_le hhi (Height.startingSat_mono hlt)
  · intro hlt
    by_contra hge
    have := Height.startingSat_mono (Nat.not_lt.mp hge)
    omega

end Sat

end Lord.Ordinals
