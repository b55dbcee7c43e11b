import Lord.Wallet.CardinalSelection
import Lord.Wallet.Panics

/-! The stage that adds value is a complete selection of coins: it finds enough cardinal UTXOs whenever
all of them together are enough. -/

namespace Lord.Wallet.TransactionBuilder

open Bitcoin Ots

variable {b b' : TransactionBuilder}

/-! ### Selection above a target -/

/-- Of two values, the first is beyond the target or at least the second. -/
def Covers (targetValue value other : Nat) : Prop := targetValue ≤ value ∨ other ≤ value

/-- A selection fails when nothing is left to select, and otherwise returns a UTXO that covers all. -/
theorem selectCardinalUtxo_covers (hwallet : ∀ utxo ∈ b.utxos, utxo ∈ b.amounts) (targetValue : Nat) :
    b.cardinals = [] ∧
        b.selectCardinalUtxo targetValue false = .error (.err .notEnoughCardinalUtxos) ∨
      ∃ utxo ∈ b.cardinals,
        b.selectCardinalUtxo targetValue false = .ok ((utxo, b.valueOf utxo), b.without utxo) ∧
        ∀ other ∈ b.cardinals, Covers targetValue (b.valueOf utxo) (b.valueOf other) := by
  have hsorted : b.utxos.Pairwise fun _ _ => True := List.pairwise_of_forall fun _ _ => trivial
  obtain ⟨hfails, hselects⟩ := selectCardinalUtxo_optimal hsorted hwallet targetValue false
  by_cases hempty : b.cardinals = []
  · exact .inl ⟨hempty, hfails.mpr hempty⟩
  · obtain ⟨utxo, hselected, hselect⟩ := hselects hempty
    refine .inr ⟨utxo, hselected.cardinal, hselect, fun other hother => ?_⟩
    have hbest := hselected.above rfl
    by_cases hreached : targetValue ≤ b.valueOf utxo
    · exact .inl hreached
    · -- Another value from the target on would have been preferred.
      have hbelow : ∀ value ∈ b.cardinals.map b.valueOf, value < targetValue := fun value hvalue =>
        Nat.not_le.mp fun hmeets => hreached (hbest.above value hvalue hmeets).1
      exact .inr (hbest.under hbelow _ (List.mem_map_of_mem hother))

/-! ### Benefits -/

/-- The fee of an input that is added. -/
def additionalFee (b : TransactionBuilder) : Nat := b.feeRate.fee additionalInputVbytes

/-- What the cardinal UTXOs have together beyond the fees of their inputs. -/
def totalBenefit (b : TransactionBuilder) (fee : Nat) : Nat :=
  (b.cardinals.map fun utxo => b.valueOf utxo - fee).sum

/-- A sum over the cardinal UTXOs loses what the one taken contributes. -/
theorem sum_without {utxo : OutPoint} (hnodup : b.utxos.Nodup) (h : utxo ∈ b.cardinals)
    (f : OutPoint → Nat) :
    f utxo + ((b.without utxo).cardinals.map f).sum = (b.cardinals.map f).sum := by
  have hleft : (b.without utxo).cardinals = b.cardinals.erase utxo := by
    show (b.utxos.filter (· ≠ utxo)).filter b.isCardinal = (b.utxos.filter b.isCardinal).erase utxo
    rw [(hnodup.filter _).erase_eq_filter]
    rw [List.filter_filter, List.filter_filter]
    refine List.filter_congr fun other _ => ?_
    rw [Bool.and_comm, bne, beq_eq_decide, decide_not]
  rw [hleft]
  exact List.sum_map_erase f h

theorem totalBenefit_without {utxo : OutPoint} (hnodup : b.utxos.Nodup) (h : utxo ∈ b.cardinals)
    (fee : Nat) :
    b.valueOf utxo - fee + (b.without utxo).totalBenefit fee = b.totalBenefit fee :=
  sum_without hnodup h fun utxo => b.valueOf utxo - fee

theorem sumOf_without {utxo : OutPoint} (hnodup : b.utxos.Nodup) (h : utxo ∈ b.cardinals) :
    b.valueOf utxo + (b.without utxo).sumOf (b.without utxo).cardinals = b.sumOf b.cardinals :=
  sum_without hnodup h b.valueOf

/-- When no cardinal UTXO is worth its fee, they have nothing together. -/
theorem totalBenefit_eq_zero {fee : Nat} (h : ∀ utxo ∈ b.cardinals, b.valueOf utxo ≤ fee) :
    b.totalBenefit fee = 0 := by
  refine List.sum_eq_zero fun benefit hbenefit => ?_
  obtain ⟨utxo, hutxo, rfl⟩ := List.mem_map.mp hbenefit
  exact Nat.sub_eq_zero_of_le (h utxo hutxo)

/-! ### The loop -/

/-- The loop fails when the benefits do not cover the deficit, and returns when they do.  A round takes
the benefit of its UTXO from both, and the UTXO that is not worth its fee is the largest left. -/
theorem addFrom_complete {fee fuel deficit : Nat} {front : List Output} {last : Output}
    (houtputs : b.outputs = front ++ [last]) (hnodup : b.utxos.Nodup)
    (hwallet : ∀ utxo ∈ b.utxos, utxo ∈ b.amounts) (hfuel : b.utxos.length < fuel)
    (hneeded : 0 < deficit → deficit + fee < 2 ^ 64)
    (hamounts : last.value + b.sumOf b.cardinals < 2 ^ 64) :
    b.totalBenefit fee < deficit ∧
        addFrom fee fuel deficit b = .error (.err .notEnoughCardinalUtxos) ∨
      deficit ≤ b.totalBenefit fee ∧ ∃ b', addFrom fee fuel deficit b = .ok b' := by
  induction fuel generalizing b deficit last with
  | zero => exact absurd hfuel (Nat.not_lt_zero _)
  | succ fuel ih =>
    unfold addFrom
    by_cases hpos : 0 < deficit
    · have hadd : checkedAdd deficit fee = some (deficit + fee) :=
        checkedAdd_eq_some.mpr ⟨hneeded hpos, rfl⟩
      rw [if_pos hpos, okOr_eq_ok.mpr hadd, ok_bind]
      rcases selectCardinalUtxo_covers hwallet (deficit + fee) with
        ⟨hnone, hselect⟩ | ⟨utxo, hutxo, hselect, hcovers⟩
      · refine .inl ⟨?_, by rw [hselect]; rfl⟩
        rw [totalBenefit_eq_zero fun utxo hutxo => by rw [hnone] at hutxo; cases hutxo]
        exact hpos
      · rw [hselect, ok_bind]
        dsimp only
        by_cases hpaid : fee ≤ b.valueOf utxo
        · have hsum := sumOf_without hnodup hutxo
          have hbenefits := totalBenefit_without hnodup hutxo fee
          have hsub : checkedSub (b.valueOf utxo) fee = some (b.valueOf utxo - fee) :=
            checkedSub_eq_some.mpr ⟨hpaid, rfl⟩
          have hlast : (b.without utxo).outputs = front ++ [last] := houtputs
          have hdeficit : (if deficit < b.valueOf utxo - fee then 0
              else deficit - (b.valueOf utxo - fee)) = deficit - (b.valueOf utxo - fee) := by
            split <;> omega
          have hshorter : (b.without utxo).utxos.length < b.utxos.length :=
            List.length_filter_lt_length_iff_exists.mpr
              ⟨utxo, List.mem_of_mem_filter hutxo, by simp⟩
          rw [okOr_eq_ok.mpr hsub, ok_bind, hlast, updateLast_concat, addAmount_of_lt (by omega),
            ok_bind, hdeficit]
          -- the outputs and the inputs matter to neither sum
          have hnext := @ih { b.without utxo with
            inputs := (b.without utxo).inputs ++ [utxo]
            outputs := front ++ [⟨last.value + b.valueOf utxo, last.scriptPubkey⟩] }
            (deficit - (b.valueOf utxo - fee)) ⟨last.value + b.valueOf utxo, last.scriptPubkey⟩ rfl
            (hnodup.filter _) (fun other hother => hwallet other (List.mem_of_mem_filter hother))
            (Nat.lt_of_lt_of_le hshorter (Nat.le_of_lt_succ hfuel))
            (fun _ => by have := hneeded hpos; omega)
            (by
              show last.value + b.valueOf utxo +
                (b.without utxo).sumOf (b.without utxo).cardinals < 2 ^ 64
              omega)
          change (b.without utxo).totalBenefit fee < _ ∧ _ ∨
            _ ≤ (b.without utxo).totalBenefit fee ∧ _ at hnext
          rcases hnext with ⟨hless, hfails⟩ | ⟨hmore, hreturns⟩
          · exact .inl ⟨by omega, hfails⟩
          · exact .inr ⟨by omega, hreturns⟩
        · have hsub : checkedSub (b.valueOf utxo) fee = none := if_neg hpaid
          refine .inl ⟨?_, by rw [hsub]; rfl⟩
          rw [totalBenefit_eq_zero fun other hother => ?_]
          · exact hpos
          · have hcover := hcovers other hother
            unfold Covers at hcover
            omega
    · rw [if_neg hpos]
      exact .inr ⟨by omega, b, rfl⟩

/-! ### The stage -/

/-- What the recipient's output lacks. -/
def deficit (b : TransactionBuilder) (last : Output) : Nat :=
  b.minValue last.scriptPubkey + b.estimateFee - last.value

/-- One of the sums that are checked does not fit an amount. -/
def Overflows (b : TransactionBuilder) (last : Output) : Prop :=
  2 ^ 64 ≤ b.minValue last.scriptPubkey + b.estimateFee ∨
    0 < b.deficit last ∧ 2 ^ 64 ≤ b.deficit last + b.additionalFee

theorem addValue_eq {front : List Output} {last : Output} (houtputs : b.outputs = front ++ [last])
    (hfits : b.minValue last.scriptPubkey + b.estimateFee < 2 ^ 64) :
    b.addValue = if last.value ≤ b.minValue last.scriptPubkey + b.estimateFee then
      addFrom b.additionalFee (b.utxos.length + 1) (b.deficit last) b else .ok b := by
  have hlast : b.lastOutput = .ok last := by
    rw [lastOutput, okOr_eq_ok, houtputs, List.getLast?_concat]
  have htotal : checkedAdd (b.minValue last.scriptPubkey) b.estimateFee =
      some (b.minValue last.scriptPubkey + b.estimateFee) := checkedAdd_eq_some.mpr ⟨hfits, rfl⟩
  unfold addValue
  rw [hlast, ok_bind]
  change (okOr (checkedAdd (b.minValue last.scriptPubkey) b.estimateFee) _ >>= _) = _
  rw [okOr_eq_ok.mpr htotal, ok_bind, checkedSub]
  by_cases hle : last.value ≤ b.minValue last.scriptPubkey + b.estimateFee
  · rw [if_pos hle, if_pos hle]
    rfl
  · rw [if_neg hle, if_neg hle]
    rfl

/-- The inputs that add value: cardinal UTXOs, each worth its fee, which cover what is lacking. -/
structure Adds (b b' : TransactionBuilder) (front : List Output) (last : Output)
    (adds : List OutPoint) : Prop where
  nodup : adds.Nodup
  cardinal : ∀ utxo ∈ adds, utxo ∈ b.cardinals
  worth : ∀ utxo ∈ adds, b.additionalFee ≤ b.valueOf utxo
  covers : b.deficit last ≤ (adds.map fun utxo => b.valueOf utxo - b.additionalFee).sum
  inputs : b'.inputs = b.inputs ++ adds
  outputs : b'.outputs = front ++ [⟨last.value + b.sumOf adds, last.scriptPubkey⟩]

/-- The benefits of UTXOs that are worth their fees. -/
theorem sum_benefits {fee : Nat} {adds : List OutPoint} (h : ∀ utxo ∈ adds, fee ≤ b.valueOf utxo) :
    (adds.map fun utxo => b.valueOf utxo - fee).sum + adds.length * fee = b.sumOf adds := by
  induction adds with
  | nil => simp [sumOf]
  | cons utxo rest ih =>
    have hfirst := h utxo List.mem_cons_self
    have hrest := ih fun other hother => h other (List.mem_cons_of_mem _ hother)
    have hsum : b.sumOf (utxo :: rest) = b.valueOf utxo + b.sumOf rest := by
      rw [sumOf, sumOf, List.map_cons, List.sum_cons]
    rw [hsum, List.map_cons, List.sum_cons, List.length_cons, Nat.add_mul, Nat.one_mul]
    omega

theorem addValue_adds {front : List Output} {last : Output} (houtputs : b.outputs = front ++ [last])
    (h : b.addValue = .ok b') : ∃ adds, Adds b b' front last adds := by
  obtain ⟨-, adds, htakes, hinputs, hlast, hworth, hcovers⟩ := addValue_eq_ok h houtputs
  refine ⟨adds, htakes.nodup, fun utxo hutxo => ?_, hworth, ?_, hinputs, hlast⟩
  · obtain ⟨hmem, hcardinal, -⟩ := htakes.cardinal utxo hutxo
    exact List.mem_filter.mpr ⟨hmem, hcardinal⟩
  · have hsum := sum_benefits hworth
    show b.minValue last.scriptPubkey + b.estimateFee - last.value ≤
      (adds.map fun utxo => b.valueOf utxo - b.feeRate.fee additionalInputVbytes).sum
    omega

/-- A sum that does not fit ends the stage before anything is selected. -/
theorem addValue_of_overflows {front : List Output} {last : Output}
    (houtputs : b.outputs = front ++ [last]) (h : b.Overflows last) :
    b.addValue = .error (.err .valueOverflow) := by
  by_cases hfits : b.minValue last.scriptPubkey + b.estimateFee < 2 ^ 64
  · obtain ⟨hpos, hneeded⟩ := h.resolve_left (Nat.not_le_of_lt hfits)
    have hle : last.value ≤ b.minValue last.scriptPubkey + b.estimateFee := by
      unfold deficit at hpos
      omega
    have hadd : checkedAdd (b.deficit last) b.additionalFee = none :=
      if_neg (Nat.not_lt_of_le hneeded)
    rw [addValue_eq houtputs hfits, if_pos hle, addFrom, if_pos hpos, hadd]
    rfl
  · have hlast : b.lastOutput = .ok last := by
      rw [lastOutput, okOr_eq_ok, houtputs, List.getLast?_concat]
    have htotal : checkedAdd (b.minValue last.scriptPubkey) b.estimateFee = none := if_neg hfits
    unfold addValue
    rw [hlast, ok_bind]
    change (okOr (checkedAdd (b.minValue last.scriptPubkey) b.estimateFee) _ >>= _) = _
    rw [htotal]
    rfl

/-- When the sums fit, the stage fails if the benefits do not cover what is lacking, and else returns. -/
theorem addValue_of_fits {front : List Output} {last : Output}
    (houtputs : b.outputs = front ++ [last]) (hnodup : b.utxos.Nodup)
    (hwallet : ∀ utxo ∈ b.utxos, utxo ∈ b.amounts)
    (hamounts : last.value + b.sumOf b.cardinals < 2 ^ 64) (h : ¬b.Overflows last) :
    b.totalBenefit b.additionalFee < b.deficit last ∧
        b.addValue = .error (.err .notEnoughCardinalUtxos) ∨
      b.deficit last ≤ b.totalBenefit b.additionalFee ∧ ∃ b', b.addValue = .ok b' := by
  unfold Overflows at h
  push Not at h
  obtain ⟨hfits, hneeded⟩ := h
  rw [addValue_eq houtputs hfits]
  split
  · exact addFrom_complete houtputs hnodup hwallet (Nat.lt_succ_self _) hneeded hamounts
  · rename_i hcovered
    refine .inr ⟨?_, b, rfl⟩
    unfold deficit
    omega

/-- The stage returns an error of overflow exactly when a sum does not fit, an error of too few cardinal
UTXOs exactly when all of them together do not cover what is lacking, and otherwise the builder with
inputs that do. -/
theorem addValue_complete {front : List Output} {last : Output}
    (houtputs : b.outputs = front ++ [last]) (hnodup : b.utxos.Nodup)
    (hwallet : ∀ utxo ∈ b.utxos, utxo ∈ b.amounts)
    (hamounts : last.value + b.sumOf b.cardinals < 2 ^ 64) :
    (b.addValue = .error (.err .valueOverflow) ↔ b.Overflows last) ∧
      (b.addValue = .error (.err .notEnoughCardinalUtxos) ↔
        ¬b.Overflows last ∧ b.totalBenefit b.additionalFee < b.deficit last) ∧
      ((∃ b', b.addValue = .ok b') ↔
        ¬b.Overflows last ∧ b.deficit last ≤ b.totalBenefit b.additionalFee) ∧
      ∀ b', b.addValue = .ok b' → ∃ adds, Adds b b' front last adds := by
  by_cases h : b.Overflows last
  · have hstop := addValue_of_overflows houtputs h
    rw [hstop]
    exact ⟨iff_of_true rfl h, iff_of_false nofun fun hfits => hfits.1 h,
      iff_of_false nofun fun hfits => hfits.1 h, nofun⟩
  · rcases addValue_of_fits houtputs hnodup hwallet hamounts h with
      ⟨hless, hstop⟩ | ⟨hmore, b', hreturns⟩
    · rw [hstop]
      exact ⟨iff_of_false nofun h, iff_of_true rfl ⟨h, hless⟩,
        iff_of_false nofun fun hfits => absurd hless (Nat.not_lt_of_le hfits.2), nofun⟩
    · refine ⟨?_, ?_, iff_of_true ⟨b', hreturns⟩ ⟨h, hmore⟩, fun _ => addValue_adds houtputs⟩
      · rw [hreturns]
        exact iff_of_false nofun h
      · rw [hreturns]
        exact iff_of_false nofun fun hfits => absurd hfits.2 (Nat.not_lt_of_le hmore)

/-- A builder after alignment whose outgoing output lies at the front, with two cardinal UTXOs. -/
def alignedBuilder (target : Target) (second : UInt64) : TransactionBuilder :=
  { exampleBuilder with
    amounts := [⟨exampleOutPoint 1, ⟨20000, []⟩⟩, ⟨exampleOutPoint 2, ⟨second, []⟩⟩,
      ⟨exampleOutPoint 3, ⟨40000, []⟩⟩].toAList
    inscriptions := ∅
    lockedUtxos := ∅
    outgoing := ⟨exampleOutPoint 1, 0⟩
    target
    utxos := [exampleOutPoint 2, exampleOutPoint 3]
    inputs := [exampleOutPoint 1]
    outputs := [⟨20000, exampleKey 3⟩] }

theorem addValue_complete_example :
    ∃ b' adds, Adds (alignedBuilder (.value 45000) 30000) b' [] ⟨20000, exampleKey 3⟩ adds := by
  have hlast : (alignedBuilder (.value 45000) 30000).outputs = [] ++ [⟨20000, exampleKey 3⟩] := rfl
  have hfits : ¬(alignedBuilder (.value 45000) 30000).Overflows ⟨20000, exampleKey 3⟩ := by
    unfold Overflows
    decide +kernel
  obtain ⟨-, -, hreturns, hadds⟩ := addValue_complete hlast (by decide +kernel) (by decide +kernel)
    (by decide +kernel)
  obtain ⟨b', h⟩ := hreturns.mpr ⟨hfits, by decide +kernel⟩
  exact ⟨b', hadds b' h⟩

/-- The builder comes out of alignment when the other UTXOs are in the wallet. -/
theorem alignedBuilder_eq (target : Target) (second : UInt64) :
    ({ alignedBuilder target second with
        utxos := (alignedBuilder target second).amounts.keys
        inputs := []
        outputs := [] }.selectOutgoing >>= alignOutgoing) = .ok (alignedBuilder target second) := rfl

/-- Too large a target is an error of its own, whatever the benefits are, and a recipient's output that
does not fit an amount panics, although the benefits cover what is lacking. -/
theorem addValue_incomplete :
    (∀ target second, ∃ b₀ : TransactionBuilder,
        (b₀.selectOutgoing >>= alignOutgoing) = .ok (alignedBuilder target second)) ∧
      (alignedBuilder (.value (2 ^ 64 - 1)) 30000).addValue = .error (.err .valueOverflow) ∧
      (alignedBuilder (.value (2 ^ 64 - 1)) 30000).totalBenefit
          (alignedBuilder (.value (2 ^ 64 - 1)) 30000).additionalFee <
        (alignedBuilder (.value (2 ^ 64 - 1)) 30000).deficit ⟨20000, exampleKey 3⟩ ∧
      (alignedBuilder (.value 90000) (2 ^ 64 - 1)).addValue.map (fun _ => ()) =
        .error (.panic "Amount addition error") ∧
      (alignedBuilder (.value 90000) (2 ^ 64 - 1)).deficit ⟨20000, exampleKey 3⟩ ≤
        (alignedBuilder (.value 90000) (2 ^ 64 - 1)).totalBenefit
          (alignedBuilder (.value 90000) (2 ^ 64 - 1)).additionalFee := by
  have hlast : (alignedBuilder (.value (2 ^ 64 - 1)) 30000).outputs =
      [] ++ [⟨20000, exampleKey 3⟩] := rfl
  exact ⟨fun target second => ⟨_, alignedBuilder_eq target second⟩,
    addValue_of_overflows hlast (.inl (by decide +kernel)), by decide +kernel, by decide +kernel,
    by decide +kernel⟩

end Lord.Wallet.TransactionBuilder
