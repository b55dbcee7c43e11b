import Lord.Wallet.Checks
import Lord.Wallet.SatTransport

/-! When the stages behind the collection of the inputs panic. -/

namespace Lord.Wallet.TransactionBuilder

open Bitcoin Ots
open Index (SatPoint)
open Ordinals (supply)

variable {b b' b₀ : TransactionBuilder} {pads adds : List OutPoint} {front : List Output}

/-! ### The statement -/

/-- The values of the outputs leave room for a change output behind the recipient's. -/
def Strips (b : TransactionBuilder) (gathered : Nat) : Prop :=
  b.estimateFee ≤ gathered ∧ (stripLimits b.target).1 < gathered - b.estimateFee ∧
    330 + b.feeRate.fee (b.estimateVbytes + additionalOutputVbytes) <
      gathered - (stripLimits b.target).2

/-- The recipient's output, of what is gathered, can pay the fee and stays within its target. -/
def Settles (b : TransactionBuilder) (gathered : Nat) : Prop :=
  (Strips b gathered → 0 < (stripLimits b.target).2) ∧
    (¬Strips b gathered → b.estimateFee < gathered ∧
      minimalNonDust b.recipient ≤ gathered - b.estimateFee ∧
      match b.target with
      | .postage => True
      | .exactPostage postage =>
        gathered - b.estimateFee ≤ postage + b.feeRate.fee additionalOutputVbytes
      | .value value => value ≤ gathered - b.estimateFee ∧
        gathered - b.estimateFee ≤ value + 330 + b.feeRate.fee additionalOutputVbytes)

/-! ### The collected builder -/

/-- What the recipient's output gathers. -/
def gathered (b₀ : TransactionBuilder) (adds : List OutPoint) : Nat :=
  b₀.valueOf b₀.outgoing.outpoint - b₀.outgoing.offset + b₀.sumOf adds

/-- A builder behind the collection of the inputs. -/
structure Collected (b₀ b : TransactionBuilder) (pads adds : List OutPoint) (front : List Output) :
    Prop where
  laid : Laid b₀ b pads adds front
  accepted : Accepted b₀
  padded : ∀ output ∈ front, 330 ≤ output.value
  covered : b₀.minValue b₀.recipient ≤ gathered b₀ adds

/-- A change address is left. -/
theorem Laid.unused (h : Laid b₀ b pads adds front) (hvalid : Valid b₀) :
    ∃ address, b.unusedChangeAddresses.getLast? = some address ∧
      address ∈ b₀.unusedChangeAddresses ∧
      address.scriptPubkey ∉ front.map Output.scriptPubkey := by
  obtain ⟨first, second, hunused, hne, hall⟩ := hvalid.change
  rcases h.front with ⟨rfl, -, -, hkept⟩ | ⟨address, haddress, rfl, hdropped⟩
  · refine ⟨second, by rw [hkept, hunused]; rfl, ?_, List.not_mem_nil⟩
    rw [hunused]
    exact List.mem_cons_of_mem _ (List.mem_singleton_self _)
  · rw [hunused] at haddress
    obtain rfl : second = address := Option.some.inj haddress
    refine ⟨first, by rw [hdropped, hunused]; rfl, by rw [hunused]; exact List.mem_cons_self, ?_⟩
    rw [List.map_singleton, List.mem_singleton]
    intro hscript
    refine hne (address_ext hscript ?_)
    rw [(hall first List.mem_cons_self).2,
      (hall second (List.mem_cons_of_mem _ (List.mem_singleton_self _))).2, hscript]

theorem Laid.changeDustLimit (h : Laid b₀ b pads adds front) (hvalid : Valid b₀) :
    b.changeDustLimit = .ok 330 := by
  obtain ⟨address, hlast, hmem, -⟩ := h.unused hvalid
  exact changeDustLimit_eq hlast (hvalid.taproot hmem).1

theorem target_of_fixed (h : b'.fixed = b.fixed) : b'.target = b.target :=
  show b'.fixed.target = b.fixed.target from congrArg _ h

theorem collect_eq_ok (hfresh : Fresh b₀) (hvalid : Valid b₀) (h : b₀.collect = .ok b) :
    ∃ pads adds front, Collected b₀ b pads adds front := by
  obtain ⟨⟨⟩, hcheck, h⟩ := bind_eq_ok.mp h
  obtain ⟨b₁, hselect, h⟩ := bind_eq_ok.mp h
  obtain ⟨b₂, halign, h⟩ := bind_eq_ok.mp h
  obtain ⟨b₃, hpad, hadd⟩ := bind_eq_ok.mp h
  have haccepted := accepted_of_checkRecipient hfresh hvalid hcheck
  obtain ⟨front, haligned⟩ := laid_of_align hfresh.inputs hfresh.outputs hfresh.utxos hselect halign
  obtain ⟨pads, front', hpadded, hdust⟩ := haligned.pad hpad
  obtain ⟨adds, hadded, -, hcovers⟩ := hpadded.add hadd
  have hmin : b₃.minValue b₀.recipient = b₀.minValue b₀.recipient := by
    rw [minValue, minValue, target_of_fixed hpadded.fixed]
  refine ⟨pads, adds, front', hadded, haccepted, fun output houtput => ?_, ?_⟩
  · have hne : output.scriptPubkey ≠ b₀.recipient := by
      rcases hpadded.front with ⟨rfl, -⟩ | ⟨address, haddress, rfl, -⟩
      · cases houtput
      · rw [List.mem_singleton.mp houtput]
        exact haccepted.apart address (List.mem_of_getLast? haddress)
    obtain ⟨dustLimit, hlimit, hle⟩ := hdust output houtput hne
    rw [haligned.changeDustLimit hvalid] at hlimit
    cases hlimit
    exact hle
  · rw [gathered, ← hmin]
    omega

/-! ### Values -/

theorem Laid.inputs_pos (h : Laid b₀ b pads adds front) : 0 < b.inputs.length := by
  rw [h.inputs]
  simp

theorem Laid.total_front (h : Laid b₀ b pads adds front) :
    total front = b₀.sumOf pads + b₀.outgoing.offset := by
  rcases h.front with ⟨rfl, rfl, hzero, -⟩ | ⟨address, -, rfl, -⟩
  · rw [hzero]
    rfl
  · rw [total_cons, total_nil, Nat.add_zero]

theorem Laid.total_inputs (h : Laid b₀ b pads adds front) :
    b₀.sumOf b.inputs = total front + gathered b₀ adds := by
  have hsum := h.sumOf_inputs
  have hoffset := h.outgoing.2
  rw [h.total_front, gathered]
  omega

theorem Laid.total_le_supply (h : Laid b₀ b pads adds front) (hvalid : Valid b₀) :
    total front + gathered b₀ adds ≤ supply := by
  have htotal := h.total_le
  have hwallet := hvalid.supply
  rw [← h.total_inputs]
  omega

/-- An output for the recipient behind those in front. -/
theorem find_recipient (b : TransactionBuilder) (front : List Output) (value : Nat) (rest : List Output) :
    ∃ output, ((front ++ ⟨value, b.recipient⟩ :: rest).find? fun output =>
      output.scriptPubkey = b.recipient) = some output := by
  rw [← Option.isSome_iff_exists, List.find?_isSome]
  exact ⟨_, List.mem_append_right _ List.mem_cons_self, decide_eq_true rfl⟩

theorem stripLimits_le (target : Target) : (stripLimits target).2 ≤ (stripLimits target).1 := by
  unfold stripLimits
  split
  · exact le_refl _
  · show targetPostage ≤ maxPostage
    decide
  · exact le_refl _

/-- What exceeds the target goes to a change address, or nothing is changed. -/
theorem stripValue_cases (h : Collected b₀ b pads adds front) (hvalid : Valid b₀)
    (hregular : b.feeRate.Regular) :
    ¬Strips b (gathered b₀ adds) ∧ b.stripValue = .ok b ∨
      Strips b (gathered b₀ adds) ∧ ∃ address, address ∈ b₀.unusedChangeAddresses ∧
        address.scriptPubkey ∉ front.map Output.scriptPubkey ∧
        b.stripValue = .ok { b with
          outputs := front ++ [⟨(stripLimits b.target).2, b₀.recipient⟩] ++
            [⟨gathered b₀ adds - (stripLimits b.target).2, address.scriptPubkey⟩]
          unusedChangeAddresses := b.unusedChangeAddresses.dropLast } := by
  have hsupply := h.laid.total_le_supply hvalid
  have hlt := supply_lt
  have hsat := h.laid.calculateSatOffset hvalid
  have houtputs : b.outputs = front ++ [⟨gathered b₀ adds, b₀.recipient⟩] := h.laid.outputs
  have htotal : total b.outputs = total front + gathered b₀ adds := by
    rw [houtputs, total_append, total_cons, total_nil, Nat.add_zero]
  have hrecipient := recipient_of_fixed h.laid.fixed
  rw [← h.laid.total_front] at hsat
  have hfound : ∃ output, okOr (b.outputs.find? fun output => output.scriptPubkey = b.recipient)
      (.panic "couldn't find output that contains the index" : Stop) = .ok output := by
    obtain ⟨output, hfound⟩ := find_recipient b front (gathered b₀ adds) []
    refine ⟨output, okOr_eq_ok.mpr ?_⟩
    rw [houtputs, ← hrecipient]
    exact hfound
  obtain ⟨output, hfound⟩ := hfound
  have hvalue : subAmount (total b.outputs) (total front) = .ok (gathered b₀ adds) :=
    subAmount_eq_ok.mpr ⟨by omega, by omega⟩
  have hsum : sumU64 (b.outputs.map Output.value) = .ok (total b.outputs) := sumU64_of_lt (by omega)
  have hbelow := stripLimits_le b.target
  obtain ⟨address, haddress, hmem, hapart⟩ := h.laid.unused hvalid
  generalize hr : b.stripValue = r
  unfold stripValue at hr
  simp only [hsat, hsum, hfound, hvalue, ok_bind] at hr
  by_cases hfee : b.estimateFee ≤ gathered b₀ adds
  · have hexcess : checkedSub (gathered b₀ adds) b.estimateFee =
        some (gathered b₀ adds - b.estimateFee) := checkedSub_eq_some.mpr ⟨hfee, rfl⟩
    rw [hexcess] at hr
    dsimp only at hr
    by_cases hmax : (stripLimits b.target).1 < gathered b₀ adds - b.estimateFee
    · have hstripped : okOr (checkedSub (gathered b₀ adds) (stripLimits b.target).2)
          (.panic "called `Option::unwrap()` on a `None` value" : Stop) =
            .ok (gathered b₀ adds - (stripLimits b.target).2) :=
        okOr_eq_ok.mpr (checkedSub_eq_some.mpr ⟨by omega, rfl⟩)
      -- the fee with a change output fits, as the fee without it is within what is gathered
      have hadd := hregular.add_le b.estimateVbytes additionalOutputVbytes
      have hmono : b.feeRate.fee additionalOutputVbytes ≤ b.estimateFee :=
        hregular.mono (le_estimateVbytesWith h.laid.inputs_pos _)
      have hneeded : addAmount 330 (b.feeRate.fee (b.estimateVbytes + additionalOutputVbytes)) =
          .ok (330 + b.feeRate.fee (b.estimateVbytes + additionalOutputVbytes)) := by
        refine addAmount_of_lt ?_
        rw [estimateFee] at hfee hmono
        omega
      rw [if_pos hmax, hstripped, h.laid.changeDustLimit hvalid] at hr
      simp only [ok_bind, hneeded] at hr
      by_cases hroom : 330 + b.feeRate.fee (b.estimateVbytes + additionalOutputVbytes) <
          gathered b₀ adds - (stripLimits b.target).2
      · have hchange : subAmount (gathered b₀ adds) (stripLimits b.target).2 =
            .ok (gathered b₀ adds - (stripLimits b.target).2) := subAmount_eq_ok.mpr ⟨by omega, rfl⟩
        rw [if_pos hroom, houtputs, updateLast_concat, popChangeAddress_eq haddress] at hr
        simp only [ok_bind, hchange] at hr
        exact .inr ⟨⟨hfee, hmax, hroom⟩, address, hmem, hapart, hr.symm⟩
      · rw [if_neg hroom] at hr
        exact .inl ⟨fun hstrips => hroom hstrips.2.2, hr.symm⟩
    · rw [if_neg hmax] at hr
      exact .inl ⟨fun hstrips => hmax hstrips.2.1, hr.symm⟩
  · rw [checkedSub, if_neg hfee] at hr
    exact .inl ⟨fun hstrips => hfee hstrips.1, hr.symm⟩

/-- The last output pays the fee when it can. -/
theorem deductFee_cases {position : Nat} {last : Output} (hsat : b.calculateSatOffset = .ok position)
    (houtputs : b.outputs = front ++ [last]) (hfits : total b.outputs < 2 ^ 64) :
    (b.estimateFee ≤ last.value ∧ position + b.estimateFee < total b.outputs) ∧
        b.deductFee = .ok { b with
          outputs := front ++ [⟨last.value - b.estimateFee, last.scriptPubkey⟩] } ∨
      ¬(b.estimateFee ≤ last.value ∧ position + b.estimateFee < total b.outputs) ∧
        ¬NoPanic b.deductFee := by
  have hsum : sumU64 (b.outputs.map Output.value) = .ok (total b.outputs) := sumU64_of_lt hfits
  have hlast : okOr b.outputs.getLast? (.panic "No output to deduct fee from" : Stop) = .ok last := by
    rw [okOr_eq_ok, houtputs, List.getLast?_concat]
  generalize hr : b.deductFee = r
  unfold deductFee at hr
  simp only [hsat, hsum, hlast, ok_bind] at hr
  by_cases hfee : b.estimateFee ≤ total b.outputs
  · have hremaining : okOr (checkedSub (total b.outputs) b.estimateFee)
        (.panic "called `Option::unwrap()` on a `None` value" : Stop) =
          .ok (total b.outputs - b.estimateFee) :=
      okOr_eq_ok.mpr (checkedSub_eq_some.mpr ⟨hfee, rfl⟩)
    simp only [hremaining, ok_bind] at hr
    by_cases hkept : position < total b.outputs - b.estimateFee
    · have hassert : assert (position < total b.outputs - b.estimateFee)
          "invariant: deducting fee does not consume sat" = .ok () :=
        assert_eq_ok.mpr (decide_eq_true hkept)
      simp only [hassert, ok_bind] at hr
      by_cases hpays : b.estimateFee ≤ last.value
      · have hpaid : assert (b.estimateFee ≤ last.value) "invariant: last output can pay fee" = .ok () :=
          assert_eq_ok.mpr (decide_eq_true hpays)
        rw [hpaid, houtputs, updateLast_concat, subAmount_eq_ok.mpr ⟨hpays, rfl⟩] at hr
        exact .inl ⟨⟨hpays, by omega⟩, hr.symm⟩
      · refine .inr ⟨fun hboth => hpays hboth.1, fun hno => hpays ?_⟩
        rw [← hr] at hno
        exact of_decide_eq_true (noPanic_assert_bind.mp hno).1
    · refine .inr ⟨fun hboth => hkept (by omega), fun hno => hkept ?_⟩
      rw [← hr] at hno
      exact of_decide_eq_true (noPanic_assert_bind.mp hno).1
  · refine .inr ⟨fun hboth => hfee (by omega), fun hno => ?_⟩
    rw [← hr, checkedSub, if_neg hfee] at hno
    exact not_noPanic _ (noPanic_bind.mp hno).1

/-! ### The stages together -/

theorem feeRate_of_fixed (h : b'.fixed = b.fixed) : b'.feeRate = b.feeRate :=
  show b'.fixed.feeRate = b.fixed.feeRate from congrArg _ h

theorem Laid.length_front (h : Laid b₀ b pads adds front) : front.length ≤ 1 := by
  rcases h.front with ⟨rfl, -⟩ | ⟨address, -, rfl, -⟩
  · exact Nat.zero_le _
  · exact le_refl _

theorem Laid.front_nodup (h : Laid b₀ b pads adds front) : (front.map Output.scriptPubkey).Nodup := by
  rcases h.front with ⟨rfl, -⟩ | ⟨address, -, rfl, -⟩
  · exact .nil
  · exact List.nodup_singleton _

theorem Collected.front_change (h : Collected b₀ b pads adds front) {output : Output}
    (houtput : output ∈ front) : 330 ≤ output.value ∧
      ∃ address ∈ b₀.unusedChangeAddresses, address.scriptPubkey = output.scriptPubkey := by
  refine ⟨h.padded output houtput, ?_⟩
  rcases h.laid.front with ⟨rfl, -⟩ | ⟨address, haddress, rfl, -⟩
  · cases houtput
  · refine ⟨address, List.mem_of_getLast? haddress, ?_⟩
    rw [List.mem_singleton.mp houtput]

theorem satOffsetFrom_of_fixed (h : b'.fixed = b.fixed) {message : String} {start : Nat}
    {inputs : List OutPoint} :
    b'.satOffsetFrom message start inputs = b.satOffsetFrom message start inputs := by
  induction inputs generalizing start with
  | nil => rfl
  | cons outpoint rest ih =>
    have hamount : b'.amountOf outpoint = b.amountOf outpoint := by
      rw [amountOf, amountOf, amounts_of_fixed h]
    rw [satOffsetFrom, satOffsetFrom, hamount, outgoing_of_fixed h]
    simp only [ih]

/-- Outputs that keep to what the inputs have make a final builder. -/
theorem Collected.final (h : Collected b₀ b pads adds front) (hvalid : Valid b₀) {rest : List Output}
    {value : Nat} (hfixed : b'.fixed = b.fixed) (hinputs : b'.inputs = b.inputs)
    (houtputs : b'.outputs = front ++ ⟨value, b₀.recipient⟩ :: rest)
    (hrest : ∀ output ∈ rest, 330 ≤ output.value ∧
      ∃ address ∈ b₀.unusedChangeAddresses, address.scriptPubkey = output.scriptPubkey)
    (hdistinct : ((front ++ rest).map Output.scriptPubkey).Nodup)
    (hpaid : gathered b₀ adds = value + total rest + b'.estimateFee) :
    Final b₀ b' front rest value where
  fixed := hfixed.trans h.laid.fixed
  sat := by
    intro message
    have hsat := h.laid.satOffset hvalid message
    rw [← h.laid.total_front, satOffsetFrom_of_fixed hfixed.symm, ← hinputs] at hsat
    exact hsat
  nodup := hinputs ▸ h.laid.nodup
  spends := by
    rw [hinputs, h.laid.inputs]
    simp
  wallet := fun input hinput => h.laid.mem_amounts (hinputs ▸ hinput)
  outgoing := h.laid.outgoing.2
  outputs := houtputs
  change := by
    intro output houtput
    rcases List.mem_append.mp houtput with hfront | hback
    · exact h.front_change hfront
    · exact hrest output hback
  distinct := hdistinct
  paid := by
    rw [hinputs, h.laid.total_inputs, houtputs, total_append, total_cons, hpaid]
    dsimp only
    omega
  within := by
    rw [hinputs, h.laid.total_inputs]
    exact h.laid.total_le_supply hvalid

theorem minValue_of_fixed (h : b'.fixed = b.fixed) (recipient : Bytes) :
    b'.minValue recipient = b.minValue recipient := by
  rw [minValue, minValue, target_of_fixed h]

/-- Without a change output for it, the excess over the postage is within its limit. -/
theorem meets_of_postage (hregular : b.feeRate.Regular) {gathered : Nat} (hfee : b.estimateFee ≤ gathered)
    (hstrips : ¬Strips b gathered) (htarget : b.target = .postage) :
    gathered - b.estimateFee ≤ maxPostage + b.feeRate.fee additionalOutputVbytes := by
  have hadd := hregular.add_le b.estimateVbytes additionalOutputVbytes
  have hestimate : b.estimateFee = b.feeRate.fee b.estimateVbytes := rfl
  have hmax : maxPostage = 20000 := rfl
  have hlimits : stripLimits b.target = (20000, 10000) := by
    rw [htarget]
    rfl
  rw [Strips, hlimits] at hstrips
  by_contra hexceeds
  exact hstrips ⟨hfee, by omega, by omega⟩

theorem estimateFee_congr (hfixed : b'.fixed = b.fixed) (hinputs : b'.inputs = b.inputs)
    (hscripts : b'.outputs.map Output.scriptPubkey = b.outputs.map Output.scriptPubkey) :
    b'.estimateFee = b.estimateFee := by
  rw [estimateFee, estimateFee, estimateVbytes, estimateVbytes, hinputs, feeRate_of_fixed hfixed,
    estimateVbytesWith_congr _ hscripts]

/-- The fee with a change output more. -/
theorem estimateFee_concat {outputs : List Output} {change : Output} (hfixed : b'.fixed = b.fixed)
    (hinputs : b'.inputs = b.inputs) (houtputs : b'.outputs = outputs ++ [change])
    (hscripts : outputs.map Output.scriptPubkey = b.outputs.map Output.scriptPubkey)
    (hfew : outputs.length < 100) (hchange : scriptSize change.scriptPubkey = 35) :
    b'.estimateFee = b.feeRate.fee (b.estimateVbytes + additionalOutputVbytes) := by
  rw [estimateFee, estimateVbytes, estimateVbytes, hinputs, houtputs, feeRate_of_fixed hfixed,
    estimateVbytesWith_concat _ hfew hchange, estimateVbytesWith_congr _ hscripts]

/-- The fees and the target are within the supply. -/
theorem Collected.bounds (h : Collected b₀ b pads adds front) (hvalid : Valid b₀)
    (hregular : b.feeRate.Regular) (hfee : b.estimateFee ≤ gathered b₀ adds) :
    b.feeRate.fee additionalOutputVbytes ≤ supply ∧ b.minValue b.recipient ≤ supply := by
  have hsupply := h.laid.total_le_supply hvalid
  have hcovered := h.covered
  have hmono : b.feeRate.fee additionalOutputVbytes ≤ b.estimateFee :=
    hregular.mono (le_estimateVbytesWith h.laid.inputs_pos _)
  rw [minValue_of_fixed h.laid.fixed, recipient_of_fixed h.laid.fixed]
  omega

/-- When nothing is stripped, the recipient's output pays the fee. -/
theorem noPanic_kept (h : Collected b₀ b pads adds front) (hfresh : Fresh b₀) (hvalid : Valid b₀)
    (hregular : b.feeRate.Regular) (hstrips : ¬Strips b (gathered b₀ adds)) :
    NoPanic (b.deductFee >>= build) ↔ Settles b (gathered b₀ adds) := by
  have hsat := h.laid.calculateSatOffset hvalid
  have houtputs : b.outputs = front ++ [⟨gathered b₀ adds, b₀.recipient⟩] := h.laid.outputs
  have htotal : total b.outputs = total front + gathered b₀ adds := by
    rw [houtputs, total_append, total_cons, total_nil, Nat.add_zero]
  have hsupply := h.laid.total_le_supply hvalid
  have hlt := supply_lt
  rw [← h.laid.total_front] at hsat
  rcases deductFee_cases hsat houtputs (by omega) with ⟨⟨hpays, hkept⟩, hdeduct⟩ | ⟨hnot, hpanic⟩
  · dsimp only at hpays hdeduct
    rw [noPanic_bind_of_eq hdeduct]
    have hfee : estimateFee { b with
        outputs := front ++ [⟨gathered b₀ adds - b.estimateFee, b₀.recipient⟩] } = b.estimateFee := by
      refine estimateFee_congr rfl rfl ?_
      rw [houtputs, List.map_append, List.map_append]
      rfl
    obtain ⟨hslop, hmin⟩ := h.bounds hvalid hregular hpays
    have hfinal : Final b₀ { b with
        outputs := front ++ [⟨gathered b₀ adds - b.estimateFee, b₀.recipient⟩] } front []
          (gathered b₀ adds - b.estimateFee) :=
      h.final hvalid rfl rfl rfl nofun
        (by rw [List.append_nil]; exact h.laid.front_nodup)
        (by rw [hfee, total_nil]; omega)
    rw [hfinal.noPanic_build hfresh hvalid h.accepted hslop hmin]
    have hmeets : Meets b (gathered b₀ adds - b.estimateFee) ↔ match b.target with
      | .postage => True
      | .exactPostage postage =>
        gathered b₀ adds - b.estimateFee ≤ postage + b.feeRate.fee additionalOutputVbytes
      | .value value => value ≤ gathered b₀ adds - b.estimateFee ∧
        gathered b₀ adds - b.estimateFee ≤ value + 330 + b.feeRate.fee additionalOutputVbytes := by
      unfold Meets
      cases heq : b.target with
      | postage => exact iff_true_intro (meets_of_postage hregular hpays hstrips heq)
      | exactPostage postage => exact Iff.rfl
      | value value => exact Iff.rfl
    constructor
    · rintro ⟨hpos, hmeet, hdust⟩
      exact ⟨fun hyes => absurd hyes hstrips, fun _ => ⟨by omega, hdust, hmeets.mp hmeet⟩⟩
    · rintro ⟨-, hsettles⟩
      obtain ⟨hpos, hdust, hmeet⟩ := hsettles hstrips
      exact ⟨by omega, hmeets.mpr hmeet, hdust⟩
  · refine iff_of_false (fun hno => hpanic (noPanic_bind.mp hno).1) fun hsettles => hnot ?_
    obtain ⟨hpos, -⟩ := hsettles.2 hstrips
    exact ⟨hpos.le, by omega⟩

/-- The target value itself is one that the recipient may get. -/
theorem meets_target (h : Accepted b₀) (hfixed : b.fixed = b₀.fixed) :
    Meets b (stripLimits b.target).2 ∧ minimalNonDust b.recipient ≤ (stripLimits b.target).2 := by
  have hwanted := h.wanted
  have hdust := h.dust
  unfold minValue at hwanted
  unfold Meets
  rw [← target_of_fixed hfixed, ← recipient_of_fixed hfixed] at hwanted
  rw [← recipient_of_fixed hfixed] at hdust
  cases htarget : b.target with
  | postage =>
    show targetPostage ≤ maxPostage + _ ∧ _ ≤ targetPostage
    rw [targetPostage, maxPostage]
    omega
  | exactPostage postage =>
    rw [htarget] at hwanted
    exact ⟨Nat.le_add_right _ _, hwanted⟩
  | value value =>
    rw [htarget] at hwanted
    exact ⟨⟨le_refl _, Nat.le_add_right_of_le (Nat.le_add_right _ _)⟩, hwanted⟩

/-- When the excess is stripped, the change output pays the fee. -/
theorem noPanic_stripped (h : Collected b₀ b pads adds front) (hfresh : Fresh b₀) (hvalid : Valid b₀)
    (hregular : b.feeRate.Regular) (hstrips : Strips b (gathered b₀ adds)) {address : Address}
    (hmem : address ∈ b₀.unusedChangeAddresses)
    (hapart : address.scriptPubkey ∉ front.map Output.scriptPubkey)
    (hfixed : b'.fixed = b.fixed) (hinputs : b'.inputs = b.inputs)
    (houtputs : b'.outputs = front ++ [⟨(stripLimits b.target).2, b₀.recipient⟩] ++
      [⟨gathered b₀ adds - (stripLimits b.target).2, address.scriptPubkey⟩]) :
    NoPanic (b'.deductFee >>= build) ↔ 0 < (stripLimits b.target).2 := by
  obtain ⟨hfee, hmax, hroom⟩ := hstrips
  obtain ⟨hslop, hmin⟩ := h.bounds hvalid hregular hfee
  obtain ⟨hmeets, hdust⟩ := meets_target h.accepted h.laid.fixed
  have hsat := h.laid.calculateSatOffset hvalid
  have hsupply := h.laid.total_le_supply hvalid
  have hlt := supply_lt
  have hbelow := stripLimits_le b.target
  generalize htarget : (stripLimits b.target).2 = target at *
  have htotal : total b'.outputs = total front + gathered b₀ adds := by
    rw [houtputs, total_append, total_append, total_cons, total_cons, total_nil]
    dsimp only
    omega
  have hposition : b'.calculateSatOffset = .ok (total front) := by
    rw [h.laid.total_front, ← hsat, calculateSatOffset, calculateSatOffset, hinputs]
    exact satOffsetFrom_of_fixed hfixed
  have hestimate : b'.estimateFee = b.feeRate.fee (b.estimateVbytes + additionalOutputVbytes) := by
    refine estimateFee_concat hfixed hinputs houtputs ?_ ?_ (hvalid.taproot hmem).1.scriptSize
    · rw [h.laid.outputs, List.map_append, List.map_append]
      rfl
    · have hlength := h.laid.length_front
      rw [List.length_append, List.length_singleton]
      omega
  rcases deductFee_cases hposition houtputs (by omega) with ⟨-, hdeduct⟩ | ⟨hnot, -⟩
  · have hfinalFee : estimateFee { b' with outputs := front ++ [⟨target, b₀.recipient⟩] ++
        [⟨gathered b₀ adds - target - b'.estimateFee, address.scriptPubkey⟩] } = b'.estimateFee := by
      refine estimateFee_congr rfl rfl ?_
      rw [houtputs]
      simp only [List.map_append, List.map_singleton]
    have hfinal : Final b₀ { b' with outputs := front ++ [⟨target, b₀.recipient⟩] ++
          [⟨gathered b₀ adds - target - b'.estimateFee, address.scriptPubkey⟩] } front
        [⟨gathered b₀ adds - target - b'.estimateFee, address.scriptPubkey⟩] target := by
      refine h.final hvalid hfixed hinputs (List.append_assoc _ _ _) ?_ ?_ ?_
      · intro output houtput
        rw [List.mem_singleton.mp houtput]
        exact ⟨by dsimp only; omega, address, hmem, rfl⟩
      · rw [List.map_append, List.map_singleton]
        refine List.nodup_append.mpr ⟨h.laid.front_nodup, List.nodup_singleton _,
          fun script hfront other hother heq => hapart ?_⟩
        rw [heq, List.mem_singleton.mp hother] at hfront
        exact hfront
      · rw [hfinalFee, total_cons, total_nil]
        dsimp only
        omega
    rw [noPanic_bind_of_eq hdeduct]
    have hslop' : b'.feeRate.fee additionalOutputVbytes ≤ supply := by
      rw [feeRate_of_fixed hfixed]
      exact hslop
    have hmin' : b'.minValue b'.recipient ≤ supply := by
      rw [minValue_of_fixed hfixed, recipient_of_fixed hfixed]
      exact hmin
    have hmeets' : Meets b' target := by
      unfold Meets
      rw [target_of_fixed hfixed, feeRate_of_fixed hfixed]
      exact hmeets
    have hdust' : minimalNonDust b'.recipient ≤ target := by
      rw [recipient_of_fixed hfixed]
      exact hdust
    rw [hfinal.noPanic_build hfresh hvalid h.accepted hslop' hmin']
    exact ⟨And.left, fun hpos => ⟨hpos, hmeets', hdust'⟩⟩
  · exact absurd ⟨by dsimp only; omega, by omega⟩ hnot

theorem noPanic_settle (h : Collected b₀ b pads adds front) (hfresh : Fresh b₀) (hvalid : Valid b₀)
    (hregular : b.feeRate.Regular) : NoPanic b.settle ↔ Settles b (gathered b₀ adds) := by
  unfold settle
  rcases stripValue_cases h hvalid hregular with
    ⟨hkept, hstrip⟩ | ⟨hstrips, address, hmem, hapart, hstrip⟩
  · rw [noPanic_bind_of_eq hstrip]
    exact noPanic_kept h hfresh hvalid hregular hkept
  · rw [noPanic_bind_of_eq hstrip]
    have hpos := @noPanic_stripped _ { b with
      outputs := front ++ [⟨(stripLimits b.target).2, b₀.recipient⟩] ++
        [⟨gathered b₀ adds - (stripLimits b.target).2, address.scriptPubkey⟩]
      unusedChangeAddresses := b.unusedChangeAddresses.dropLast } _ _ _ _ h hfresh hvalid hregular
        hstrips _ hmem hapart rfl rfl rfl
    refine hpos.trans ⟨fun hpositive => ⟨fun _ => hpositive, fun hnot => absurd hstrips hnot⟩, ?_⟩
    intro hsettles
    exact hsettles.1 hstrips

/-- The builder returns for a valid wallet when what its stages gather for the recipient settles: it pays
the fee of the whole transaction and stays within the target, or leaves room for a change output. -/
theorem buildTransaction_noPanic_iff {outgoing : SatPoint}
    {inscriptions : AList fun _ : SatPoint => List InscriptionId}
    {amounts : AList fun _ : OutPoint => TxOut} {lockedUtxos runicUtxos : Finset OutPoint}
    {recipient : Bytes} {change : Address × Address} {rate : ℚ≥0} {target : Target} {network : Network}
    (hvalid : Valid (new outgoing inscriptions amounts lockedUtxos runicUtxos recipient change
      (.ofRate rate) target network)) :
    NoPanic (new outgoing inscriptions amounts lockedUtxos runicUtxos recipient change
        (.ofRate rate) target network).buildTransaction ↔
      ∀ b last, (new outgoing inscriptions amounts lockedUtxos runicUtxos recipient change
          (.ofRate rate) target network).collect = .ok b →
        b.outputs.getLast? = some last → Settles b last.value := by
  have hfresh : Fresh (new outgoing inscriptions amounts lockedUtxos runicUtxos recipient change
    (.ofRate rate) target network) := ⟨rfl, rfl, rfl, rfl⟩
  rw [buildTransaction_eq hfresh hvalid, noPanic_bind]
  constructor
  · rintro ⟨-, hsettle⟩ b last hcollect hlast
    obtain ⟨pads, adds, front, hcollected⟩ := collect_eq_ok hfresh hvalid hcollect
    have hregular : b.feeRate.Regular := by
      rw [feeRate_of_fixed hcollected.laid.fixed]
      exact FeeRate.regular_ofRate rate
    rw [hcollected.laid.outputs, List.getLast?_concat] at hlast
    cases hlast
    exact (noPanic_settle hcollected hfresh hvalid hregular).mp (hsettle b hcollect)
  · intro hsettles
    refine ⟨noPanic_collect hfresh hvalid, fun b hcollect => ?_⟩
    obtain ⟨pads, adds, front, hcollected⟩ := collect_eq_ok hfresh hvalid hcollect
    have hregular : b.feeRate.Regular := by
      rw [feeRate_of_fixed hcollected.laid.fixed]
      exact FeeRate.regular_ofRate rate
    have hlast := hcollected.laid.outputs ▸ List.getLast?_concat
    exact (noPanic_settle hcollected hfresh hvalid hregular).mpr (hsettles b _ hcollect hlast)

/-! ### Runs -/

/-- One satoshi for each virtual byte. -/
theorem ofRate_one : FeeRate.ofRate 1 = exampleFeeRate := by
  have hfee : ∀ vsize : Nat, ⌊((1 : ℚ≥0) : ℚ) * vsize + 1 / 2⌋₊ = vsize := by
    intro vsize
    rw [Nat.floor_eq_iff (by positivity)]
    push_cast
    constructor <;> linarith
  have hall : (FeeRate.ofRate 1).fee = exampleFeeRate.fee := by
    funext vsize
    show min _ _ = min _ _
    rw [hfee]
  cases hrate : FeeRate.ofRate 1
  cases hexample : exampleFeeRate
  rw [hrate, hexample] at hall
  cases hall
  rfl

/-- A wallet with the outgoing output and another one, at one satoshi for each virtual byte. -/
def exampleTarget (value : UInt64) (target : Nat) : TransactionBuilder :=
  new ⟨exampleOutPoint 1, 0⟩ ∅
    [⟨exampleOutPoint 1, ⟨5000, []⟩⟩, ⟨exampleOutPoint 2, ⟨value, []⟩⟩].toAList
    ∅ ∅ (exampleKey 3) (exampleAddress 1, exampleAddress 2)
    (.ofRate 1) (.value target) .bitcoin

theorem isTaproot_exampleKey (byte : UInt8) : IsTaproot (exampleKey byte) :=
  ⟨Bytes32.replicate byte, rfl⟩

theorem valid_exampleTarget {value : UInt64} {target : Nat}
    (hpositive : ∀ outpoint ∈ (exampleTarget value target).amounts.keys,
      0 < (exampleTarget value target).valueOf outpoint)
    (hsupply : (exampleTarget value target).sumOf (exampleTarget value target).amounts.keys ≤ supply) :
    Valid (exampleTarget value target) := by
  refine ⟨fun outpoint hmem => hpositive outpoint (AList.mem_keys.mpr hmem), hsupply, nofun, _, _, rfl,
    show (⟨exampleKey 1, .mainnet, rfl⟩ : Address) ≠ ⟨exampleKey 2, .mainnet, rfl⟩ by decide, ?_⟩
  intro address hmem
  rcases List.mem_cons.mp hmem with rfl | hsecond
  · exact ⟨isTaproot_exampleKey 1, rfl⟩
  · rw [List.mem_singleton.mp hsecond]
    exact ⟨isTaproot_exampleKey 2, rfl⟩

theorem strips_exampleTarget : (match (exampleTarget 30000 6000).collect with
    | .ok b => (b.outputs.getLast?.all fun last => b.estimateFee ≤ last.value ∧
        (stripLimits b.target).1 < last.value - b.estimateFee ∧
        330 + b.feeRate.fee (b.estimateVbytes + additionalOutputVbytes) <
          last.value - (stripLimits b.target).2) && 0 < (stripLimits b.target).2
    | .error _ => true) = true := by
  rw [exampleTarget, ofRate_one]
  decide +kernel

theorem buildTransaction_noPanic_example : NoPanic (exampleTarget 30000 6000).buildTransaction := by
  refine (buildTransaction_noPanic_iff
    (valid_exampleTarget (by decide +kernel) (by decide +kernel))).mpr fun b last hcollect hlast => ?_
  have hstrips := strips_exampleTarget
  rw [show (exampleTarget 30000 6000).collect = .ok b from hcollect] at hstrips
  dsimp only at hstrips
  rw [hlast, Bool.and_eq_true, Option.all_some, decide_eq_true_eq, decide_eq_true_eq] at hstrips
  exact ⟨fun _ => hstrips.2, fun hnot => absurd hstrips.1 hnot⟩

/-- Two inputs cost a virtual byte more than was estimated for them, and the recipient gets one satoshi
less than the target. -/
theorem not_noPanic_example : Valid (exampleTarget 1168 6000) ∧
    ¬NoPanic (exampleTarget 1168 6000).buildTransaction := by
  refine ⟨valid_exampleTarget (by decide +kernel) (by decide +kernel), fun hno => ?_⟩
  have hpanics : (exampleTarget 1168 6000).buildTransaction =
      .error (.panic "called `Option::unwrap()` on a `None` value") := by
    rw [exampleTarget, ofRate_one]
    decide +kernel
  exact hno _ hpanics

end Lord.Wallet.TransactionBuilder
