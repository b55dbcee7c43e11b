import Lord.Lib.Counting
import Lord.Ordinals.NotationTotals

/-! How many sats there are of each rarity. -/

namespace Lord.Ordinals

/-- `Rarity::supply`. -/
def Rarity.supply : Rarity → Nat
  | .common => 2099999990760000
  | .uncommon => 6926535
  | .rare => 3432
  | .epic => 27
  | .legendary => 5
  | .mythic => 1

namespace Notation

/-! ### The rarity of the sats of a block -/

/-- The rarity of the first sat of a block. -/
def firstRarity (height : Nat) : Rarity :=
  if height = 0 then .mythic
  else if 210000 ∣ height ∧ 2016 ∣ height then .legendary
  else if 210000 ∣ height then .epic
  else if 2016 ∣ height then .rare
  else .uncommon

theorem firstRarity_ne_common (height : Nat) : firstRarity height ≠ .common := by
  unfold firstRarity
  split_ifs <;> decide

/-- Behind the first sat of a block all of them are common. -/
theorem rarity_at {height offset : Nat} (h : offset < Height.subsidy height) :
    rarity (Height.startingSat height + offset) =
      .ok (if offset = 0 then firstRarity height else .common) := by
  refine bind_eq_ok.mpr ⟨_, degree_at h, congrArg Except.ok ?_⟩
  have hcycle : cycleEpochs * 210000 = 1260000 := rfl
  have hhalving : subsidyHalvingInterval = 210000 := rfl
  have hchange : diffchangeInterval = 2016 := rfl
  simp only [degreeAt, hhalving, hcycle, hchange, firstRarity, Nat.dvd_iff_mod_eq_zero]
  by_cases hoffset : offset = 0
  · simp only [hoffset, and_true, if_true]
    by_cases hhalving : height % 210000 = 0
    · by_cases hchange : height % 2016 = 0
      · -- a multiple of both is one of the cycle, so in the first cycle it is zero
        have hzero : height / 1260000 = 0 ↔ height = 0 := by omega
        simp only [hhalving, hchange, hzero, and_self, and_true, if_true]
      · have hpos : height ≠ 0 := by omega
        simp only [hhalving, hchange, hpos, and_false, if_true, if_false]
    · have hpos : height ≠ 0 := by omega
      simp only [hhalving, hpos, and_false, false_and, if_false]
  · simp only [hoffset, and_false, if_false]

/-- The fast test of `Sat::common` is that of the rarity. -/
theorem common_iff_rarity {sat : Nat} (h : sat < supply) :
    ∃ r, rarity sat = .ok r ∧ (common sat = true ↔ r = .common) := by
  obtain ⟨height, offset, hoffset, rfl⟩ := exists_block h
  refine ⟨_, rarity_at hoffset, ?_⟩
  have hcommon := Height.common_iff (Nat.le_add_right (Height.startingSat height) offset)
    (Nat.add_lt_add_left hoffset _)
  rw [← Bool.not_eq_false, hcommon, Nat.add_eq_left]
  split
  · rename_i hzero
    exact iff_of_false (fun hne => hne hzero) (firstRarity_ne_common height)
  · rename_i hpos
    exact iff_of_true hpos rfl

/-! ### Counting the sats of a rarity -/

/-- The blocks that mine sats. -/
theorem subsidy_pos_iff {height : Nat} : 0 < Height.subsidy height ↔ height < 6930000 := by
  constructor
  · exact height_lt_of_subsidy
  · intro h
    refine Epoch.subsidy_pos ?_
    have hint : subsidyHalvingInterval = 210000 := rfl
    rw [Epoch.ofHeight, hint]
    omega

theorem startingSat_supply : Height.startingSat 6930000 = supply :=
  Height.startingSat_of_late (by decide)

/-- Among the sats of the blocks a property that only first sats may have is counted by block. -/
theorem count_first (p : Nat → Prop) [DecidablePred p]
    (hrest : ∀ height offset, offset < Height.subsidy height → 0 < offset →
      ¬p (Height.startingSat height + offset)) :
    Nat.count p supply = Nat.count (fun height => p (Height.startingSat height)) 6930000 := by
  rw [← startingSat_supply]
  exact Counting.count_starts p rfl Height.startingSat_succ
    (fun height hheight => subsidy_pos_iff.mpr hheight) fun height _ => hrest height

theorem rarity_startingSat {height : Nat} (h : height < 6930000) :
    rarity (Height.startingSat height) = .ok (firstRarity height) := by
  have hfirst := rarity_at (subsidy_pos_iff.mpr h)
  exact hfirst

theorem count_rarity {r : Rarity} (h : r ≠ .common) :
    Nat.count (fun sat => rarity sat = .ok r) supply =
      Nat.count (fun height => firstRarity height = r) 6930000 := by
  rw [count_first]
  · refine Counting.count_congr fun height hheight => ?_
    rw [rarity_startingSat hheight, Except.ok.injEq]
  · intro height offset hoffset hpos
    rw [rarity_at hoffset, if_neg hpos.ne']
    intro heq
    exact h (Except.ok.inj heq).symm

theorem count_not_common : Nat.count (fun sat => ¬rarity sat = .ok .common) supply = 6930000 := by
  rw [count_first]
  · refine Nat.count_iff_forall.mpr fun height hheight => ?_
    rw [rarity_startingSat hheight]
    intro heq
    exact firstRarity_ne_common height (Except.ok.inj heq)
  · intro height offset hoffset hpos
    rw [rarity_at hoffset, if_neg hpos.ne']
    exact not_not_intro rfl

/-! ### Counting the blocks -/

theorem firstRarity_eq_mythic {height : Nat} : firstRarity height = .mythic ↔ height = 0 := by
  unfold firstRarity
  split_ifs <;> simp <;> omega

theorem firstRarity_eq_legendary {height : Nat} :
    firstRarity height = .legendary ↔ 1260000 ∣ height ∧ ¬firstRarity height = .mythic := by
  unfold firstRarity
  split_ifs <;> simp <;> omega

theorem firstRarity_eq_epic {height : Nat} :
    firstRarity height = .epic ↔ 210000 ∣ height ∧ ¬1260000 ∣ height := by
  unfold firstRarity
  split_ifs <;> simp <;> omega

theorem firstRarity_eq_rare {height : Nat} :
    firstRarity height = .rare ↔ 2016 ∣ height ∧ ¬1260000 ∣ height := by
  unfold firstRarity
  split_ifs <;> simp <;> omega

theorem firstRarity_eq_uncommon {height : Nat} :
    firstRarity height = .uncommon ↔ ¬210000 ∣ height ∧ ¬firstRarity height = .rare := by
  unfold firstRarity
  split_ifs <;> simp <;> omega

section Blocks

variable (blocks : Nat)

theorem count_mythic (h : 0 < blocks) :
    Nat.count (fun height => firstRarity height = .mythic) blocks = 1 := by
  obtain ⟨rest, rfl⟩ := Nat.exists_eq_succ_of_ne_zero h.ne'
  have hnone : Nat.count (fun height => firstRarity (height + 1) = .mythic) rest = 0 :=
    Nat.count_iff_forall_not.mpr fun height _ heq =>
      Nat.succ_ne_zero height (firstRarity_eq_mythic.mp heq)
  rw [Nat.count_succ', hnone]
  rfl

theorem count_legendary (h : 0 < blocks) :
    Nat.count (fun height => firstRarity height = .legendary) blocks + 1 =
      Nat.count (fun height => 1260000 ∣ height) blocks := by
  have hparts := Counting.count_and_add_count_and_not (fun height => 1260000 ∣ height)
    (fun height => firstRarity height = .mythic) blocks
  have hmythic : Nat.count (fun height => 1260000 ∣ height ∧ firstRarity height = .mythic) blocks =
      1 := by
    rw [← count_mythic blocks h]
    refine Counting.count_congr fun height _ => and_iff_right_of_imp fun heq => ?_
    exact firstRarity_eq_mythic.mp heq ▸ Nat.dvd_zero _
  rw [Counting.count_congr fun height _ => firstRarity_eq_legendary]
  omega

theorem count_epic :
    Nat.count (fun height => firstRarity height = .epic) blocks +
        Nat.count (fun height => 1260000 ∣ height) blocks =
      Nat.count (fun height => 210000 ∣ height) blocks := by
  have hparts := Counting.count_and_add_count_and_not (fun height => 210000 ∣ height)
    (fun height => 1260000 ∣ height) blocks
  have hboth : Nat.count (fun height => 210000 ∣ height ∧ 1260000 ∣ height) blocks =
      Nat.count (fun height => 1260000 ∣ height) blocks :=
    Counting.count_congr fun height _ => by omega
  rw [Counting.count_congr fun height _ => firstRarity_eq_epic]
  omega

theorem count_rare :
    Nat.count (fun height => firstRarity height = .rare) blocks +
        Nat.count (fun height => 1260000 ∣ height) blocks =
      Nat.count (fun height => 2016 ∣ height) blocks := by
  have hparts := Counting.count_and_add_count_and_not (fun height => 2016 ∣ height)
    (fun height => 1260000 ∣ height) blocks
  have hboth : Nat.count (fun height => 2016 ∣ height ∧ 1260000 ∣ height) blocks =
      Nat.count (fun height => 1260000 ∣ height) blocks :=
    Counting.count_congr fun height _ => by omega
  rw [Counting.count_congr fun height _ => firstRarity_eq_rare]
  omega

theorem count_uncommon :
    Nat.count (fun height => firstRarity height = .uncommon) blocks +
        Nat.count (fun height => firstRarity height = .rare) blocks +
        Nat.count (fun height => 210000 ∣ height) blocks = blocks := by
  have hparts := Counting.count_and_add_count_and_not (fun height => ¬210000 ∣ height)
    (fun height => firstRarity height = .rare) blocks
  have hrest := Counting.count_add_count_not (fun height => 210000 ∣ height) blocks
  have hrare : Nat.count (fun height => ¬210000 ∣ height ∧ firstRarity height = .rare) blocks =
      Nat.count (fun height => firstRarity height = .rare) blocks := by
    refine Counting.count_congr fun height _ => and_iff_right_of_imp fun heq => ?_
    have := firstRarity_eq_rare.mp heq
    omega
  rw [Counting.count_congr fun height _ => firstRarity_eq_uncommon]
  omega

end Blocks

/-- The blocks that begin with a sat of each rarity. -/
theorem count_blocks {blocks : Nat} (h : blocks = 6930000) :
    ∀ r : Rarity, r ≠ .common →
      Nat.count (fun height => firstRarity height = r) blocks = r.supply := by
  have hpos : 0 < blocks := by omega
  have hlegendary := count_legendary blocks hpos
  have hepic := count_epic blocks
  have hrare := count_rare blocks
  have huncommon := count_uncommon blocks
  have hcycle := Counting.count_dvd (show 0 < 1260000 by decide) blocks
  have hhalvings := Counting.count_dvd (show 0 < 210000 by decide) blocks
  have hchanges := Counting.count_dvd (show 0 < 2016 by decide) blocks
  rw [show blocks / 1260000 = 5 by omega, if_pos (by omega)] at hcycle
  rw [show blocks / 210000 = 33 by omega, if_neg (by omega)] at hhalvings
  rw [show blocks / 2016 = 3437 by omega, if_pos (by omega)] at hchanges
  intro r hr
  cases r with
  | common => exact absurd rfl hr
  | uncommon =>
    show _ = 6926535
    omega
  | rare =>
    show _ = 3432
    omega
  | epic =>
    show _ = 27
    omega
  | legendary =>
    show _ = 5
    omega
  | mythic => exact count_mythic blocks hpos

theorem count_common {sats : Nat}
    (h : Nat.count (fun sat => ¬rarity sat = .ok .common) sats = 6930000) :
    Nat.count (fun sat => rarity sat = .ok .common) sats + 6930000 = sats := by
  rw [← h]
  exact Counting.count_add_count_not _ _

theorem supply_common : Ordinals.supply = Rarity.supply .common + 6930000 := rfl

/-- Every sat has one rarity, which the fast test tells from common, and `Rarity::supply` is the number
of sats of each. -/
theorem rarity_supply :
    (∀ sat < supply, ∃ r, rarity sat = .ok r ∧ (Ordinals.common sat = true ↔ r = .common)) ∧
      ∀ r : Rarity, Nat.count (fun sat => rarity sat = .ok r) supply = r.supply := by
  refine ⟨fun sat hsat => common_iff_rarity hsat, fun r => ?_⟩
  by_cases hr : r = .common
  · rw [hr]
    exact Nat.add_right_cancel ((count_common count_not_common).trans supply_common)
  · rw [count_rarity hr]
    exact count_blocks rfl r hr

end Notation

end Lord.Ordinals
