import Lord.Wallet.Panics

/-! The checks of a transaction whose values are final. -/

namespace Lord.Wallet.TransactionBuilder

open Bitcoin Ots
open Index (SatPoint)
open Ordinals (supply)

variable {b b' b₀ : TransactionBuilder}

/-! ### Sums -/

def total (outputs : List Output) : Nat := (outputs.map Output.value).sum

@[simp] theorem total_nil : total [] = 0 := rfl

@[simp] theorem total_cons (output : Output) (outputs : List Output) :
    total (output :: outputs) = output.value + total outputs := by
  rw [total, total, List.map_cons, List.sum_cons]

@[simp] theorem total_append (xs ys : List Output) : total (xs ++ ys) = total xs + total ys := by
  rw [total, total, total, List.map_append, List.sum_append]

theorem foldlM_addU64 {values : List Nat} {start : Nat} (h : start + values.sum < 2 ^ 64) :
    values.foldlM addU64 start = .ok (start + values.sum) := by
  induction values generalizing start with
  | nil => rfl
  | cons value rest ih =>
    rw [List.sum_cons] at h ⊢
    rw [List.foldlM_cons, addU64_eq_ok.mpr ⟨by omega, rfl⟩]
    show rest.foldlM addU64 (start + value) = _
    rw [ih (by omega), Nat.add_assoc]

theorem sumU64_of_lt {outputs : List Output} (h : total outputs < 2 ^ 64) :
    sumU64 (outputs.map Output.value) = .ok (total outputs) := by
  rw [sumU64, foldlM_addU64 (by rw [Nat.zero_add]; exact h), Nat.zero_add]
  rfl

/-! ### Addresses -/

/-- What the recipient has to be for the checks in front. -/
structure Accepted (b : TransactionBuilder) : Prop where
  apart : ∀ address ∈ b.unusedChangeAddresses, address.scriptPubkey ≠ b.recipient
  dust : minimalNonDust b.recipient ≤ 600
  wanted : minimalNonDust b.recipient ≤ b.minValue b.recipient

theorem Fresh.mem_change (h : Fresh b) {address : Address} :
    address ∈ b.changeAddresses ↔ address ∈ b.unusedChangeAddresses := by
  rw [h.change, List.mem_dedup]

theorem Valid.taproot (h : Valid b) {address : Address} (hmem : address ∈ b.unusedChangeAddresses) :
    IsTaproot address.scriptPubkey ∧
      address.network = addressNetwork address.scriptPubkey b.network := by
  obtain ⟨first, second, hunused, -, hall⟩ := h.change
  exact hall address (hunused ▸ hmem)

theorem address_ext {x y : Address} (hscript : x.scriptPubkey = y.scriptPubkey)
    (hnetwork : x.network = y.network) : x = y := by
  cases x
  cases y
  cases hscript
  cases hnetwork
  rfl

theorem accepted_of_checkRecipient (hfresh : Fresh b₀) (hvalid : Valid b₀) {u : Unit}
    (h : b₀.checkRecipient = .ok u) : Accepted b₀ := by
  unfold checkRecipient at h
  split at h
  · rename_i hreturn
    have hzero := minimalNonDust_opReturn hreturn
    refine ⟨fun address hmem heq => ?_, by omega, by omega⟩
    have hnot := (hvalid.taproot hmem).1.not_opReturn
    rw [heq, hreturn] at hnot
    cases hnot
  · split at h
    · cases h
    · rename_i address hscript
      obtain ⟨hsame, hnetwork⟩ := Address.fromScript_eq_ok hscript
      split at h
      · cases h
      · rename_i hother
        have haddressable := address.standard
        rw [hsame] at haddressable
        refine ⟨fun change hmem heq => hother ?_,
          minimalNonDust_le (length_le_of_addressable haddressable), ?_⟩
        · have hchange := (hvalid.taproot hmem).2
          rw [heq, ← hnetwork] at hchange
          rw [← address_ext (heq.trans hsame.symm) hchange, hfresh.mem_change]
          exact hmem
        · dsimp only at h
          unfold minValue
          cases htarget : b₀.target with
          | value value =>
            simp only [htarget] at h
            split at h
            · cases h
            · rename_i hdust
              exact Nat.le_of_not_lt hdust
          | postage => exact le_refl _
          | exactPostage postage =>
            simp only [htarget] at h
            split at h
            · cases h
            · rename_i hdust
              exact Nat.le_of_not_lt hdust

/-! ### The checks of the transaction -/

theorem ok_bind {α β : Type} (a : α) (f : α → Build β) : (.ok a >>= f) = f a := rfl

/-- A builder whose outputs are final: the recipient's between change outputs, and the fee is what they
leave of the inputs. -/
structure Final (b₀ b : TransactionBuilder) (front rest : List Output) (value : Nat) : Prop where
  fixed : b.fixed = b₀.fixed
  sat : ∀ message, b.satOffsetFrom message 0 b.inputs = .ok (total front)
  nodup : b.inputs.Nodup
  spends : b₀.outgoing.outpoint ∈ b.inputs
  wallet : ∀ input ∈ b.inputs, input ∈ b₀.amounts
  outgoing : b₀.outgoing.offset < b₀.valueOf b₀.outgoing.outpoint
  outputs : b.outputs = front ++ ⟨value, b₀.recipient⟩ :: rest
  change : ∀ output ∈ front ++ rest, 330 ≤ output.value ∧
    ∃ address ∈ b₀.unusedChangeAddresses, address.scriptPubkey = output.scriptPubkey
  distinct : ((front ++ rest).map Output.scriptPubkey).Nodup
  paid : b₀.sumOf b.inputs = total b.outputs + b.estimateFee
  within : b₀.sumOf b.inputs ≤ supply

variable {front rest : List Output} {value : Nat}

/-- Outputs with a script, counted among the scripts. -/
theorem length_filter_script (outputs : List Output) (script : Bytes) :
    (outputs.filter fun output => output.scriptPubkey = script).length =
      (outputs.map Output.scriptPubkey).count script := by
  rw [← List.countP_eq_length_filter, List.count, List.countP_map]
  exact List.countP_congr fun output _ => by simp

theorem Final.apart (h : Final b₀ b front rest value) (haccepted : Accepted b₀)
    {output : Output} (houtput : output ∈ front ++ rest) : output.scriptPubkey ≠ b₀.recipient := by
  obtain ⟨-, address, hmem, hscript⟩ := h.change output houtput
  rw [← hscript]
  exact haccepted.apart address hmem

theorem Final.scripts_nodup (h : Final b₀ b front rest value) (haccepted : Accepted b₀) :
    (b.outputs.map Output.scriptPubkey).Nodup := by
  have hperm : b.outputs.Perm (⟨value, b₀.recipient⟩ :: (front ++ rest)) := by
    rw [h.outputs]
    exact List.perm_middle
  rw [(hperm.map _).nodup_iff, List.map_cons, List.nodup_cons]
  refine ⟨fun hmem => ?_, h.distinct⟩
  obtain ⟨output, houtput, hscript⟩ := List.mem_map.mp hmem
  exact h.apart haccepted houtput hscript

/-- The wallet has the outgoing output once. -/
theorem Final.amounts_once (h : Final b₀ b front rest value) :
    (b.amounts.entries.filter fun entry => entry.1 = b.outgoing.outpoint ∧
      b.outgoing.offset < entry.2.value.toNat).length = 1 := by
  have hamounts := amounts_of_fixed h.fixed
  have houtgoing := outgoing_of_fixed h.fixed
  obtain ⟨txOut, hlookup⟩ := Option.isSome_iff_exists.mp
    (AList.lookup_isSome.mpr (h.wallet _ h.spends))
  have hoffset := h.outgoing
  rw [valueOf, hlookup] at hoffset
  rw [hamounts, houtgoing, ← List.countP_eq_length_filter,
    ← List.count_eq_one_of_mem (List.Nodup.of_map _ b₀.amounts.keys_nodup)
      (AList.mem_lookup_iff.mp hlookup), List.count]
  refine List.countP_congr fun entry hentry => ?_
  obtain ⟨outpoint, found⟩ := entry
  rw [decide_eq_true_eq, beq_iff_eq]
  constructor
  · rintro ⟨rfl, -⟩
    have hfound := AList.mem_lookup_iff.mpr hentry
    rw [hlookup] at hfound
    cases hfound
    rfl
  · intro heq
    cases heq
    exact ⟨rfl, hoffset⟩

theorem Final.inputs_once (h : Final b₀ b front rest value) :
    (b.inputs.filter fun outpoint => outpoint = b.outgoing.outpoint).length = 1 := by
  rw [outgoing_of_fixed h.fixed, ← List.countP_eq_length_filter,
    ← List.count_eq_one_of_mem h.nodup h.spends, List.count]
  exact List.countP_congr fun outpoint _ => by simp

/-- Without an output of the recipient the outgoing sat is not found in one. -/
theorem not_noPanic_checkRecipientOutput {recipient : Bytes} {satOffset outputEnd : Nat}
    {outputs : List Output} (h : ∀ output ∈ outputs, output.scriptPubkey ≠ recipient) :
    ¬NoPanic (checkRecipientOutput recipient satOffset outputEnd outputs) := by
  induction outputs generalizing outputEnd with
  | nil => exact not_noPanic _
  | cons output rest ih =>
    intro hno
    unfold checkRecipientOutput at hno
    obtain ⟨hadd, hno⟩ := noPanic_bind.mp hno
    by_cases hfits : outputEnd + output.value < 2 ^ 64
    · have hno := hno _ (addU64_eq_ok.mpr ⟨hfits, rfl⟩)
      split at hno
      · exact h output List.mem_cons_self (of_decide_eq_true (noPanic_assert.mp hno))
      · exact ih (fun other hother => h other (List.mem_cons_of_mem _ hother)) hno
    · rw [addU64, checkedAdd, if_neg hfits] at hadd
      exact not_noPanic _ hadd

/-- The outgoing sat is found in the recipient's output when that output has a value. -/
theorem checkRecipientOutput_cases {recipient : Bytes} {outputEnd : Nat} {front rest : List Output}
    (hrest : ∀ output ∈ rest, output.scriptPubkey ≠ recipient)
    (hfits : outputEnd + total front + value < 2 ^ 64) :
    0 < value ∧ checkRecipientOutput recipient (outputEnd + total front) outputEnd
        (front ++ ⟨value, recipient⟩ :: rest) = .ok () ∨
      ¬0 < value ∧ ¬NoPanic (checkRecipientOutput recipient (outputEnd + total front) outputEnd
        (front ++ ⟨value, recipient⟩ :: rest)) := by
  induction front generalizing outputEnd with
  | nil =>
    rw [total_nil] at hfits
    have hadd : addU64 outputEnd value = .ok (outputEnd + value) := addU64_eq_ok.mpr ⟨by omega, rfl⟩
    rw [List.nil_append, total_nil, checkRecipientOutput]
    simp only [hadd, ok_bind]
    by_cases hvalue : 0 < value
    · rw [if_pos (by omega)]
      exact .inl ⟨hvalue, assert_eq_ok.mpr (decide_eq_true trivial)⟩
    · rw [if_neg (by omega)]
      exact .inr ⟨hvalue, not_noPanic_checkRecipientOutput hrest⟩
  | cons first front ih =>
    rw [total_cons] at hfits
    have hadd : addU64 outputEnd first.value = .ok (outputEnd + first.value) :=
      addU64_eq_ok.mpr ⟨by omega, rfl⟩
    have hstep := @ih (outputEnd + first.value) (by omega)
    rw [List.cons_append, total_cons, checkRecipientOutput]
    simp only [hadd, ok_bind]
    rw [if_neg (by omega), ← Nat.add_assoc]
    exact hstep

/-- Change outputs pass the checks. -/
theorem checkOutputs_change {satOffset offset : Nat} {front rest : List Output}
    (hchange : ∀ output ∈ front, output.scriptPubkey ≠ b.recipient ∧
      ∃ address ∈ b.changeAddresses, address.scriptPubkey = output.scriptPubkey)
    (hfits : offset + total front < 2 ^ 64) :
    b.checkOutputs satOffset offset (front ++ rest) =
      b.checkOutputs satOffset (offset + total front) rest := by
  induction front generalizing offset with
  | nil => rfl
  | cons first front ih =>
    rw [total_cons] at hfits
    obtain ⟨hother, address, hmem, hscript⟩ := hchange first List.mem_cons_self
    have hany : assert (b.changeAddresses.any fun address => address.scriptPubkey = first.scriptPubkey)
        "invariant: all outputs are either change or recipient: unrecognized output" = .ok () :=
      assert_eq_ok.mpr (List.any_eq_true.mpr ⟨address, hmem, decide_eq_true hscript⟩)
    have hadd : addU64 offset first.value = .ok (offset + first.value) :=
      addU64_eq_ok.mpr ⟨by omega, rfl⟩
    rw [List.cons_append, checkOutputs, if_neg hother]
    simp only [hany, hadd, ok_bind]
    rw [ih (fun output houtput => hchange output (List.mem_cons_of_mem _ houtput)) (by omega),
      total_cons, Nat.add_assoc]

/-- The checks of the outputs come down to that of the recipient's value. -/
theorem checkOutputs_eq {front rest : List Output}
    (hchange : ∀ output ∈ front ++ rest, output.scriptPubkey ≠ b.recipient ∧
      ∃ address ∈ b.changeAddresses, address.scriptPubkey = output.scriptPubkey)
    (hfits : total front + value + total rest < 2 ^ 64) :
    b.checkOutputs (total front) 0 (front ++ ⟨value, b.recipient⟩ :: rest) = b.checkTarget value := by
  have hrest : b.checkOutputs (total front) (total front + value) (rest ++ []) =
      b.checkOutputs (total front) (total front + value + total rest) [] :=
    checkOutputs_change (fun output houtput => hchange output (List.mem_append_right _ houtput)) hfits
  have hadd : addU64 (total front) value = .ok (total front + value) := addU64_eq_ok.mpr ⟨by omega, rfl⟩
  rw [List.append_nil] at hrest
  rw [checkOutputs_change (fun output houtput => hchange output (List.mem_append_left _ houtput))
    (by omega), Nat.zero_add, checkOutputs, if_pos rfl]
  simp only [hadd, hrest, ok_bind]
  cases b.checkTarget value <;> rfl

/-- The target that the value of the recipient's output is checked against. -/
def Meets (b : TransactionBuilder) (value : Nat) : Prop :=
  match b.target with
  | .postage => value ≤ maxPostage + b.feeRate.fee additionalOutputVbytes
  | .exactPostage postage => value ≤ postage + b.feeRate.fee additionalOutputVbytes
  | .value target => target ≤ value ∧ value ≤ target + 330 + b.feeRate.fee additionalOutputVbytes

theorem maxDust_eq (hfresh : Fresh b₀) (hvalid : Valid b₀) (hchange : b.changeAddresses = b₀.changeAddresses) :
    (b.changeAddresses.map fun address => minimalNonDust address.scriptPubkey).max?.getD 0 = 330 := by
  obtain ⟨first, second, hunused, hne, hall⟩ := hvalid.change
  have hpair : b.changeAddresses = [first, second] := by
    rw [hchange, hfresh.change, hunused]
    exact List.dedup_eq_self.mpr (by simpa using hne)
  have hfirst := (hall first List.mem_cons_self).1.minimalNonDust
  have hsecond := (hall second (List.mem_cons_of_mem _ (List.mem_singleton_self _))).1.minimalNonDust
  rw [hpair, List.map_cons, List.map_cons, hfirst, hsecond]
  rfl

theorem assert_cases (condition : Prop) [Decidable condition] (message : String) :
    condition ∧ assert condition message = .ok () ∨
      ¬condition ∧ ¬NoPanic (assert condition message) := by
  by_cases h : condition
  · exact .inl ⟨h, assert_eq_ok.mpr (decide_eq_true h)⟩
  · exact .inr ⟨h, fun hno => h (of_decide_eq_true (noPanic_assert.mp hno))⟩

theorem checkTarget_cases (hdust : (b.changeAddresses.map fun address =>
      minimalNonDust address.scriptPubkey).max?.getD 0 = 330)
    (hslop : b.feeRate.fee additionalOutputVbytes ≤ supply)
    (htarget : b.minValue b.recipient ≤ supply) :
    Meets b value ∧ b.checkTarget value = .ok () ∨ ¬Meets b value ∧ ¬NoPanic (b.checkTarget value) := by
  have hlt := supply_lt
  unfold Meets checkTarget
  unfold minValue at htarget
  cases heq : b.target with
  | postage =>
    have hadd : addAmount maxPostage (b.feeRate.fee additionalOutputVbytes) =
        .ok (maxPostage + b.feeRate.fee additionalOutputVbytes) :=
      addAmount_of_lt (by rw [maxPostage]; omega)
    simp only [hadd, ok_bind]
    exact assert_cases _ _
  | exactPostage postage =>
    rw [heq] at htarget
    dsimp only at htarget
    have hadd : addAmount postage (b.feeRate.fee additionalOutputVbytes) =
        .ok (postage + b.feeRate.fee additionalOutputVbytes) := addAmount_of_lt (by omega)
    simp only [hadd, ok_bind]
    exact assert_cases _ _
  | value target =>
    have hadd : addAmount 330 (b.feeRate.fee additionalOutputVbytes) =
        .ok (330 + b.feeRate.fee additionalOutputVbytes) := addAmount_of_lt (by omega)
    simp only [hdust, hadd, ok_bind]
    by_cases hreached : target ≤ value
    · have hexcess : okOr (checkedSub value target)
          (.panic "called `Option::unwrap()` on a `None` value" : Stop) = .ok (value - target) :=
        okOr_eq_ok.mpr (checkedSub_eq_some.mpr ⟨hreached, rfl⟩)
      simp only [hexcess, ok_bind]
      rcases assert_cases (value - target ≤ 330 + b.feeRate.fee additionalOutputVbytes)
        "invariant: output equals target value" with ⟨hle, hok⟩ | ⟨hgt, hpanic⟩
      · exact .inl ⟨⟨hreached, by omega⟩, hok⟩
      · exact .inr ⟨fun hboth => hgt (by omega), hpanic⟩
    · refine .inr ⟨fun hboth => hreached hboth.1, fun hno => ?_⟩
      rw [checkedSub, if_neg hreached] at hno
      exact not_noPanic _ (noPanic_bind.mp hno).1

theorem foldlM_amounts {inputs : List OutPoint} {start : Nat} (hwallet : ∀ input ∈ inputs, input ∈ b.amounts)
    (hfits : start + b.sumOf inputs < 2 ^ 64) :
    inputs.foldlM (fun fee outpoint => do addAmount fee (← b.amountOf outpoint)) start =
      .ok (start + b.sumOf inputs) := by
  induction inputs generalizing start with
  | nil => rfl
  | cons input rest ih =>
    have hsum : b.sumOf (input :: rest) = b.valueOf input + b.sumOf rest := by
      rw [sumOf, sumOf, List.map_cons, List.sum_cons]
    rw [hsum] at hfits ⊢
    have hamount : b.amountOf input = .ok (b.valueOf input) :=
      amountOf_eq_ok.mpr ⟨hwallet input List.mem_cons_self, rfl⟩
    have hadd : addAmount start (b.valueOf input) = .ok (start + b.valueOf input) :=
      addAmount_of_lt (by omega)
    simp only [List.foldlM_cons, hamount, hadd, ok_bind]
    rw [ih (fun other hother => hwallet other (List.mem_cons_of_mem _ hother)) (by omega), Nat.add_assoc]

theorem foldlM_subAmount {outputs : List Output} {start : Nat} (hfits : total outputs ≤ start) :
    outputs.foldlM (fun fee output => subAmount fee output.value) start =
      .ok (start - total outputs) := by
  induction outputs generalizing start with
  | nil => rfl
  | cons output rest ih =>
    rw [total_cons] at hfits ⊢
    have hsub : subAmount start output.value = .ok (start - output.value) :=
      subAmount_eq_ok.mpr ⟨by omega, rfl⟩
    simp only [List.foldlM_cons, hsub, ok_bind]
    rw [ih (by omega), Nat.sub_sub]

theorem Final.actualFee (h : Final b₀ b front rest value) :
    b.actualFee = .ok b.estimateFee := by
  have hpaid := h.paid
  have hsupply := h.within
  have hlt := supply_lt
  rw [← sumOf_of_fixed h.fixed] at hpaid hsupply
  have hwallet : ∀ input ∈ b.inputs, input ∈ b.amounts := fun input hinput => by
    rw [amounts_of_fixed h.fixed]
    exact h.wallet input hinput
  have hinputs := @foldlM_amounts b b.inputs 0 hwallet (by omega)
  have houtputs := @foldlM_subAmount b.outputs (0 + b.sumOf b.inputs) (by omega)
  unfold TransactionBuilder.actualFee
  simp only [hinputs, houtputs, ok_bind]
  rw [Nat.zero_add, hpaid, Nat.add_sub_cancel_left]

theorem changeAddresses_of_fixed (h : b'.fixed = b.fixed) : b'.changeAddresses = b.changeAddresses :=
  show b'.fixed.changeAddresses = b.fixed.changeAddresses from congrArg _ h

/-- The checks of a final builder come down to the value of the recipient's output. -/
theorem Final.noPanic_build (h : Final b₀ b front rest value) (hfresh : Fresh b₀)
    (hvalid : Valid b₀) (haccepted : Accepted b₀) (hslop : b.feeRate.fee additionalOutputVbytes ≤ supply)
    (htarget : b.minValue b.recipient ≤ supply) :
    NoPanic b.build ↔ 0 < value ∧ Meets b value ∧ minimalNonDust b.recipient ≤ value := by
  have hrecipient := recipient_of_fixed h.fixed
  have hchanges := changeAddresses_of_fixed h.fixed
  have hnodup := h.scripts_nodup haccepted
  have hpaid := h.paid
  have hsupply := h.within
  have hlt := supply_lt
  have htotal : total b.outputs = total front + (value + total rest) := by
    rw [h.outputs, total_append, total_cons]
  have hchange : ∀ output ∈ front ++ rest, output.scriptPubkey ≠ b.recipient ∧
      ∃ address ∈ b.changeAddresses, address.scriptPubkey = output.scriptPubkey := by
    intro output houtput
    obtain ⟨-, address, hmem, hscript⟩ := h.change output houtput
    refine ⟨hrecipient ▸ h.apart haccepted houtput, address, ?_, hscript⟩
    rw [hchanges, hfresh.mem_change]
    exact hmem
  have houtputs : b.outputs = front ++ ⟨value, b.recipient⟩ :: rest := hrecipient ▸ h.outputs
  have honce : (b.outputs.filter fun output => output.scriptPubkey = b.recipient).length = 1 := by
    rw [length_filter_script]
    refine List.count_eq_one_of_mem hnodup ?_
    rw [houtputs]
    simp
  have hatMost : (b.changeAddresses.all fun address => (b.outputs.filter fun output =>
      output.scriptPubkey = address.scriptPubkey).length ≤ 1) = true := by
    refine List.all_eq_true.mpr fun address _ => decide_eq_true ?_
    rw [length_filter_script]
    exact List.nodup_iff_count_le_one.mp hnodup _
  have hdust : (b.outputs.all fun output => minimalNonDust output.scriptPubkey ≤ output.value) = true ↔
      minimalNonDust b.recipient ≤ value := by
    rw [List.all_eq_true]
    constructor
    · intro hall
      have hown := hall ⟨value, b.recipient⟩
        (by rw [houtputs]; exact List.mem_append_right _ List.mem_cons_self)
      exact of_decide_eq_true hown
    · intro hown output houtput
      apply decide_eq_true
      rw [houtputs, List.mem_append, List.mem_cons] at houtput
      by_cases hsame : output = ⟨value, b.recipient⟩
      · rw [hsame]
        exact hown
      · have hother : output ∈ front ++ rest := by
          rw [List.mem_append]
          tauto
        obtain ⟨hle, address, hmem, hscript⟩ := h.change output hother
        rw [← hscript, (hvalid.taproot hmem).1.minimalNonDust]
        exact hle
  unfold build
  rw [noPanic_assert_bind, noPanic_assert_bind, noPanic_bind_of_eq (h.sat _)]
  simp only [h.amounts_once, h.inputs_once, true_and, decide_true]
  have hfalls := @checkRecipientOutput_cases value b.recipient 0 front rest
    (fun output houtput => (hchange output (List.mem_append_right _ houtput)).1) (by omega)
  rw [Nat.zero_add, ← houtputs] at hfalls
  rcases hfalls with ⟨hpos, hfalls⟩ | ⟨hzero, hpanic⟩
  · rw [noPanic_bind_of_eq hfalls, noPanic_assert_bind, noPanic_assert_bind]
    simp only [honce, hatMost, hpos, true_and, decide_true]
    have hchecked : b.checkOutputs (total front) 0 b.outputs = b.checkTarget value := by
      rw [houtputs]
      exact checkOutputs_eq hchange (by omega)
    have hmax := maxDust_eq hfresh hvalid hchanges
    rcases @checkTarget_cases b value hmax hslop htarget with ⟨hmeets, hok⟩ | ⟨hnot, hpanic⟩
    · rw [noPanic_bind_of_eq (hchecked.trans hok), noPanic_bind_of_eq h.actualFee, noPanic_assert_bind,
        noPanic_assert_bind, vsize_transaction]
      simp only [hmeets, hdust, true_and]
      constructor
      · rintro ⟨-, hle, -⟩
        exact hle
      · intro hle
        exact ⟨decide_eq_true rfl, hle, noPanic_ok _⟩
    · refine iff_of_false (fun hno => hpanic ?_) fun hboth => hnot hboth.1
      rw [← hchecked]
      exact (noPanic_bind.mp hno).1
  · exact iff_of_false (fun hno => hpanic (noPanic_bind.mp hno).1) fun hall => hzero hall.1

end Lord.Wallet.TransactionBuilder
