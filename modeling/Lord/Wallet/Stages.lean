import Mathlib.Algebra.Order.BigOperators.Group.List
import Mathlib.Data.List.AList
import Lord.Wallet.TransactionBuilder

/-! What each stage of the builder does when it returns. -/

namespace Lord.Wallet.TransactionBuilder

open Bitcoin Ots
open Index (SatPoint)

/-! ### Amounts and checks -/

theorem checkedAdd_eq_some {a b c : Nat} : checkedAdd a b = some c ↔ a + b < 2 ^ 64 ∧ a + b = c := by
  rw [checkedAdd]
  split
  · rename_i hlt
    simp only [Option.some.injEq, hlt, true_and]
  · rename_i hge
    simp only [reduceCtorEq, hge, false_and]

theorem checkedSub_eq_some {a b c : Nat} : checkedSub a b = some c ↔ b ≤ a ∧ a - b = c := by
  rw [checkedSub]
  split <;> simp [*]

theorem addAmount_eq_ok {a b c : Nat} : addAmount a b = .ok c ↔ a + b < 2 ^ 64 ∧ a + b = c := by
  rw [addAmount, okOr_eq_ok, checkedAdd_eq_some]

theorem subAmount_eq_ok {a b c : Nat} : subAmount a b = .ok c ↔ b ≤ a ∧ a - b = c := by
  rw [subAmount, okOr_eq_ok, checkedSub_eq_some]

theorem addU64_eq_ok {a b c : Nat} : addU64 a b = .ok c ↔ a + b < 2 ^ 64 ∧ a + b = c := by
  rw [addU64, okOr_eq_ok, checkedAdd_eq_some]

@[simp] theorem assert_eq_ok {condition : Bool} {message : String} {u : Unit} :
    assert condition message = .ok u ↔ condition = true := by
  cases condition <;> simp [assert]

theorem updateLast_concat (message : String) (f : Nat → Build Nat) (front : List Output)
    (last : Output) : updateLast message f (front ++ [last]) =
      (do let value ← f last.value; return front ++ [⟨value, last.scriptPubkey⟩]) := by
  induction front with
  | nil => rfl
  | cons output front ih =>
    have hsome : ∃ next rest, front ++ [last] = next :: rest := by
      cases front with
      | nil => exact ⟨last, [], rfl⟩
      | cons next rest => exact ⟨next, rest ++ [last], rfl⟩
    obtain ⟨next, rest, hcons⟩ := hsome
    rw [List.cons_append, hcons, updateLast, ← hcons, ih]
    · cases f last.value <;> rfl
    · rintro ⟨⟩

/-! ### Fields that no stage changes -/

/-- The builder without what the stages change. -/
def fixed (b : TransactionBuilder) : TransactionBuilder :=
  { b with inputs := [], outputs := [], unusedChangeAddresses := [], utxos := [] }

variable {b b' b'' : TransactionBuilder}

theorem amounts_of_fixed (h : b'.fixed = b.fixed) : b'.amounts = b.amounts :=
  show b'.fixed.amounts = b.fixed.amounts from congrArg _ h

theorem outgoing_of_fixed (h : b'.fixed = b.fixed) : b'.outgoing = b.outgoing :=
  show b'.fixed.outgoing = b.fixed.outgoing from congrArg _ h

theorem isCardinal_of_fixed (h : b'.fixed = b.fixed) (utxo : OutPoint) :
    b'.isCardinal utxo = b.isCardinal utxo := by
  show b'.fixed.isCardinal utxo = b.fixed.isCardinal utxo
  rw [h]

/-- The value of an output that the wallet can spend. -/
def valueOf (b : TransactionBuilder) (outpoint : OutPoint) : Nat :=
  ((b.amounts.lookup outpoint).map fun txOut => txOut.value.toNat).getD 0

theorem valueOf_of_fixed (h : b'.fixed = b.fixed) (outpoint : OutPoint) :
    b'.valueOf outpoint = b.valueOf outpoint := by
  rw [valueOf, valueOf, amounts_of_fixed h]

theorem amountOf_eq_ok {outpoint : OutPoint} {value : Nat} :
    b.amountOf outpoint = .ok value ↔ outpoint ∈ b.amounts ∧ b.valueOf outpoint = value := by
  rw [amountOf, valueOf, ← AList.lookup_isSome]
  cases b.amounts.lookup outpoint <;> simp

theorem valueOf_lt (outpoint : OutPoint) : b.valueOf outpoint < 2 ^ 64 := by
  rw [valueOf]
  cases b.amounts.lookup outpoint with
  | none => decide
  | some txOut => exact txOut.value.toNat_lt

/-- The values of some outpoints. -/
def sumOf (b : TransactionBuilder) (outpoints : List OutPoint) : Nat :=
  (outpoints.map b.valueOf).sum

theorem sumOf_of_fixed (h : b'.fixed = b.fixed) (outpoints : List OutPoint) :
    b'.sumOf outpoints = b.sumOf outpoints := by
  rw [sumOf, sumOf, funext (valueOf_of_fixed h)]

/-! ### Selection -/

/-- Cardinal UTXOs that are taken out of those of the builder. -/
structure Takes (b b' : TransactionBuilder) (taken : List OutPoint) : Prop where
  fixed : b'.fixed = b.fixed
  nodup : taken.Nodup
  cardinal : ∀ utxo ∈ taken, utxo ∈ b.utxos ∧ b.isCardinal utxo = true ∧ utxo ∈ b.amounts
  utxos : b'.utxos = b.utxos.filter fun utxo => utxo ∉ taken
  unused : b'.unusedChangeAddresses = b.unusedChangeAddresses

theorem Takes.refl (b : TransactionBuilder) : Takes b b [] :=
  ⟨rfl, .nil, nofun, by simp, rfl⟩

theorem Takes.trans {first later : List OutPoint} (h : Takes b b' first)
    (hlater : Takes b' b'' later) : Takes b b'' (first ++ later) where
  fixed := hlater.fixed.trans h.fixed
  nodup := by
    refine List.nodup_append.mpr ⟨h.nodup, hlater.nodup, fun utxo hfirst other hother heq => ?_⟩
    have hleft := (hlater.cardinal other hother).1
    rw [h.utxos, List.mem_filter] at hleft
    simp only [decide_eq_true_eq] at hleft
    exact hleft.2 (heq ▸ hfirst)
  cardinal := by
    intro utxo hutxo
    rcases List.mem_append.mp hutxo with hfirst | hlast
    · exact h.cardinal utxo hfirst
    · obtain ⟨hleft, hcardinal, hamounts⟩ := hlater.cardinal utxo hlast
      rw [h.utxos] at hleft
      rw [isCardinal_of_fixed h.fixed] at hcardinal
      rw [amounts_of_fixed h.fixed] at hamounts
      exact ⟨List.mem_of_mem_filter hleft, hcardinal, hamounts⟩
  utxos := by
    rw [hlater.utxos, h.utxos, List.filter_filter]
    refine List.filter_congr fun utxo _ => ?_
    simp [Bool.and_comm]
  unused := hlater.unused.trans h.unused

/-- The order of what is taken does not matter. -/
theorem Takes.perm {taken other : List OutPoint} (h : Takes b b' taken) (hperm : taken.Perm other) :
    Takes b b' other where
  fixed := h.fixed
  nodup := hperm.nodup_iff.mp h.nodup
  cardinal := fun utxo hutxo => h.cardinal utxo (hperm.mem_iff.mpr hutxo)
  utxos := by
    rw [h.utxos]
    exact List.filter_congr fun utxo _ => decide_eq_decide.mpr hperm.mem_iff.not
  unused := h.unused

theorem betterMatch_cases (targetValue : Nat) (preferUnder : Bool)
    (bestMatch : Option (OutPoint × Nat)) (utxo : OutPoint) (currentValue : Nat) :
    betterMatch targetValue preferUnder bestMatch utxo currentValue = (utxo, currentValue) ∨
      bestMatch = some (betterMatch targetValue preferUnder bestMatch utxo currentValue) := by
  cases bestMatch with
  | none => exact .inl (ite_self _)
  | some best =>
    cases preferUnder with
    | false =>
      simp only [betterMatch, Bool.false_eq_true, if_false, Option.getD_some]
      split
      · exact .inl rfl
      · exact .inr rfl
    | true =>
      simp only [betterMatch, if_true, Option.getD_some]
      split
      · exact .inl rfl
      · exact .inr rfl

/-- The best match is a cardinal UTXO with its value. -/
theorem bestMatchFrom_eq_ok {targetValue : Nat} {preferUnder : Bool}
    {bestMatch : Option (OutPoint × Nat)} {utxos : List OutPoint} {found : OutPoint × Nat}
    (h : b.bestMatchFrom targetValue preferUnder bestMatch utxos = .ok (some found)) :
    bestMatch = some found ∨
      found.1 ∈ utxos ∧ b.isCardinal found.1 = true ∧ b.amountOf found.1 = .ok found.2 := by
  induction utxos generalizing bestMatch with
  | nil => exact .inl (Except.ok.inj h)
  | cons utxo rest ih =>
    unfold bestMatchFrom at h
    split at h
    · rename_i hcardinal
      obtain ⟨currentValue, hvalue, h⟩ := bind_eq_ok.mp h
      rcases ih h with hbest | ⟨hmem, hfound⟩
      · have hbest := Option.some.inj hbest
        rcases betterMatch_cases targetValue preferUnder bestMatch utxo currentValue with hnew | hold
        · rw [← hbest, hnew]
          exact .inr ⟨List.mem_cons_self, hcardinal, hvalue⟩
        · exact .inl (by rw [← hbest, ← hold])
      · exact .inr ⟨List.mem_cons_of_mem _ hmem, hfound⟩
    · rcases ih h with hbest | ⟨hmem, hfound⟩
      · exact .inl hbest
      · exact .inr ⟨List.mem_cons_of_mem _ hmem, hfound⟩

/-- A selection takes one UTXO. -/
theorem selectCardinalUtxo_eq_ok {targetValue : Nat} {preferUnder : Bool} {utxo : OutPoint}
    {value : Nat}
    (h : b.selectCardinalUtxo targetValue preferUnder = .ok ((utxo, value), b')) :
    Takes b b' [utxo] ∧ b.valueOf utxo = value ∧ b'.inputs = b.inputs ∧ b'.outputs = b.outputs ∧
      b'.utxos.length < b.utxos.length := by
  obtain ⟨bestMatch, hbest, h⟩ := bind_eq_ok.mp h
  obtain ⟨⟨found, foundValue⟩, hfound, h⟩ := bind_eq_ok.mp h
  cases h
  rw [okOr_eq_ok] at hfound
  subst hfound
  rcases bestMatchFrom_eq_ok hbest with hnone | ⟨hmem, hcardinal, hvalue⟩
  · cases hnone
  obtain ⟨hamounts, hvalue⟩ := amountOf_eq_ok.mp hvalue
  refine ⟨⟨rfl, List.nodup_singleton _, ?_, ?_, rfl⟩, hvalue, rfl, rfl, ?_⟩
  · intro other hother
    obtain rfl := List.mem_singleton.mp hother
    exact ⟨hmem, hcardinal, hamounts⟩
  · exact List.filter_congr fun other _ => by simp
  · exact List.length_filter_lt_length_iff_exists.mpr ⟨utxo, hmem, by simp⟩

/-! ### Stages -/

theorem checkInscriptions_eq_ok {outgoing : SatPoint} {dustLimit : Nat}
    {inscriptions : List (Σ _ : SatPoint, List InscriptionId)} {u : Unit}
    (h : checkInscriptions outgoing dustLimit inscriptions = .ok u)
    {entry : Σ _ : SatPoint, List InscriptionId}
    (hentry : entry ∈ inscriptions) (houtpoint : entry.1.outpoint = outgoing.outpoint)
    (hoffset : entry.1.offset ≠ outgoing.offset) : entry.1.offset + dustLimit ≤ outgoing.offset := by
  induction inscriptions with
  | nil => cases hentry
  | cons first rest ih =>
    obtain ⟨inscribed, ids⟩ := first
    unfold checkInscriptions at h
    rcases List.mem_cons.mp hentry with rfl | hrest
    · rw [if_pos ⟨houtpoint.symm, hoffset.symm⟩] at h
      obtain ⟨limit, hlimit, h⟩ := bind_eq_ok.mp h
      obtain ⟨-, rfl⟩ := addU64_eq_ok.mp hlimit
      split at h
      · cases h
      · rename_i hle
        exact Nat.le_of_not_lt hle
    · split at h
      · obtain ⟨limit, -, h⟩ := bind_eq_ok.mp h
        split at h
        · cases h
        · exact ih h hrest
      · exact ih h hrest

/-- The outgoing output is the first input, and the recipient gets all of it. -/
theorem selectOutgoing_eq_ok (h : b.selectOutgoing = .ok b') :
    b.outgoing.outpoint ∈ b.amounts ∧ b.outgoing.offset < b.valueOf b.outgoing.outpoint ∧
      (∃ dustLimit, checkInscriptions b.outgoing dustLimit b.inscriptions.entries.reverse = .ok ()) ∧
      b' = { b with
        utxos := b.utxos.filter (· ≠ b.outgoing.outpoint)
        inputs := b.inputs ++ [b.outgoing.outpoint]
        outputs := b.outputs ++ [⟨b.valueOf b.outgoing.outpoint, b.recipient⟩] } := by
  obtain ⟨dustLimit, -, h⟩ := bind_eq_ok.mp h
  obtain ⟨⟨⟩, hcheck, h⟩ := bind_eq_ok.mp h
  obtain ⟨txOut, hlookup, h⟩ := bind_eq_ok.mp h
  rw [okOr_eq_ok] at hlookup
  have hvalue : b.valueOf b.outgoing.outpoint = txOut.value.toNat := by
    rw [valueOf, hlookup]
    rfl
  dsimp only at h
  split at h
  · obtain ⟨maximum, -, h⟩ := bind_eq_ok.mp h
    cases h
  · rename_i hoffset
    cases h
    rw [hvalue]
    exact ⟨AList.lookup_isSome.mp (by rw [hlookup]; rfl), Nat.lt_of_not_le hoffset,
      ⟨dustLimit, hcheck⟩, rfl⟩

/-- The walk ends at the outgoing sat. -/
theorem satOffsetFrom_eq_ok {message : String} {start satOffset : Nat} {inputs : List OutPoint}
    (h : b.satOffsetFrom message start inputs = .ok satOffset) :
    ∃ pads adds, inputs = pads ++ b.outgoing.outpoint :: adds ∧ b.outgoing.outpoint ∉ pads ∧
      satOffset = start + b.sumOf pads + b.outgoing.offset := by
  induction inputs generalizing start with
  | nil => cases h
  | cons outpoint rest ih =>
    unfold satOffsetFrom at h
    split at h
    · rename_i heq
      obtain ⟨-, rfl⟩ := addU64_eq_ok.mp h
      exact ⟨[], rest, by rw [heq]; rfl, List.not_mem_nil, rfl⟩
    · rename_i hne
      obtain ⟨value, hvalue, h⟩ := bind_eq_ok.mp h
      obtain ⟨next, hnext, h⟩ := bind_eq_ok.mp h
      obtain ⟨-, rfl⟩ := addU64_eq_ok.mp hnext
      obtain ⟨-, rfl⟩ := amountOf_eq_ok.mp hvalue
      obtain ⟨pads, adds, rfl, hpads, rfl⟩ := ih h
      refine ⟨outpoint :: pads, adds, rfl, ?_, ?_⟩
      · rw [List.mem_cons, not_or]
        exact ⟨Ne.symm hne, hpads⟩
      · rw [sumOf, sumOf, List.map_cons, List.sum_cons]
        omega

/-- The first output gets what is in front of the outgoing sat. -/
theorem alignOutgoing_eq_ok {amount : Nat} (houtputs : b.outputs = [⟨amount, b.recipient⟩])
    (h : b.alignOutgoing = .ok b') :
    ∃ satOffset, b.calculateSatOffset = .ok satOffset ∧
      (satOffset = 0 ∧ b' = b ∨
        0 < satOffset ∧ satOffset ≤ amount ∧ ∃ address,
          b.unusedChangeAddresses.getLast? = some address ∧ b' = { b with
            outputs := [⟨satOffset, address.scriptPubkey⟩, ⟨amount - satOffset, b.recipient⟩]
            unusedChangeAddresses := b.unusedChangeAddresses.dropLast }) := by
  obtain ⟨⟨⟩, -, h⟩ := bind_eq_ok.mp h
  obtain ⟨⟨⟩, -, h⟩ := bind_eq_ok.mp h
  obtain ⟨satOffset, hoffset, h⟩ := bind_eq_ok.mp h
  refine ⟨satOffset, hoffset, ?_⟩
  split at h
  · rename_i hzero
    exact .inl ⟨hzero, (Except.ok.inj h).symm⟩
  · rename_i hpos
    obtain ⟨⟨address, popped⟩, hpop, h⟩ := bind_eq_ok.mp h
    unfold popChangeAddress at hpop
    split at hpop
    · rename_i hlast
      cases hpop
      obtain ⟨outputs, hupdate, h⟩ := bind_eq_ok.mp h
      have hconcat : (⟨satOffset, address.scriptPubkey⟩ :: b.outputs : List Output) =
          [⟨satOffset, address.scriptPubkey⟩] ++ [⟨amount, b.recipient⟩] := by
        rw [houtputs]
        rfl
      dsimp only at hupdate
      rw [hconcat, updateLast_concat] at hupdate
      obtain ⟨value, hvalue, hupdate⟩ := bind_eq_ok.mp hupdate
      obtain ⟨hle, rfl⟩ := subAmount_eq_ok.mp hvalue
      cases hupdate
      cases h
      exact .inr ⟨Nat.pos_of_ne_zero hpos, hle, address, hlast, rfl⟩
    · cases hpop

/-- The first output is padded from the front. -/
theorem padFrom_eq_ok {dustLimit fuel : Nat} (h : padFrom dustLimit fuel b = .ok b') {first : Output}
    {rest : List Output} (houtputs : b.outputs = first :: rest) :
    ∃ pads, Takes b b' pads ∧ b'.inputs = pads ++ b.inputs ∧
      b'.outputs = ⟨first.value + b.sumOf pads, first.scriptPubkey⟩ :: rest ∧
      dustLimit ≤ first.value + b.sumOf pads := by
  induction fuel generalizing b first with
  | zero => cases h
  | succ fuel ih =>
    unfold padFrom at h
    rw [houtputs] at h
    dsimp only at h
    split at h
    · obtain ⟨⟨⟨utxo, size⟩, taken⟩, hselect, h⟩ := bind_eq_ok.mp h
      obtain ⟨value, hvalue, h⟩ := bind_eq_ok.mp h
      obtain ⟨-, rfl⟩ := addAmount_eq_ok.mp hvalue
      obtain ⟨htakes, rfl, hinputs, -, -⟩ := selectCardinalUtxo_eq_ok hselect
      obtain ⟨pads, hlater, hlaterInputs, hlaterOutputs, hdust⟩ := ih h rfl
      have hstep : Takes b { taken with
          inputs := utxo :: taken.inputs
          outputs := ⟨first.value + b.valueOf utxo, first.scriptPubkey⟩ :: rest } [utxo] :=
        { htakes with }
      have hsum : b.sumOf (pads ++ [utxo]) = b.sumOf pads + b.valueOf utxo := by
        simp [sumOf]
      rw [sumOf_of_fixed hstep.fixed] at hlaterOutputs hdust
      refine ⟨pads ++ [utxo], (hstep.trans hlater).perm List.perm_append_comm, ?_, ?_, ?_⟩
      · rw [hlaterInputs, List.append_assoc]
        simp [hinputs]
      · rw [hlaterOutputs, hsum, Nat.add_assoc, Nat.add_comm (b.valueOf utxo)]
      · rw [hsum]
        dsimp only at hdust
        omega
    · rename_i hdust
      cases h
      refine ⟨[], .refl _, rfl, ?_, ?_⟩
      · rw [houtputs]
        rfl
      · exact Nat.le_of_not_lt hdust

theorem padAlignmentOutput_eq_ok (h : b.padAlignmentOutput = .ok b') {first : Output}
    {rest : List Output} (houtputs : b.outputs = first :: rest) :
    first.scriptPubkey = b.recipient ∧ b' = b ∨
      first.scriptPubkey ≠ b.recipient ∧ ∃ dustLimit pads, b.changeDustLimit = .ok dustLimit ∧
        Takes b b' pads ∧ b'.inputs = pads ++ b.inputs ∧
        b'.outputs = ⟨first.value + b.sumOf pads, first.scriptPubkey⟩ :: rest ∧
        dustLimit ≤ first.value + b.sumOf pads := by
  unfold padAlignmentOutput at h
  rw [houtputs] at h
  dsimp only at h
  split at h
  · rename_i hrecipient
    exact .inl ⟨hrecipient, (Except.ok.inj h).symm⟩
  · rename_i hchange
    obtain ⟨dustLimit, hdust, h⟩ := bind_eq_ok.mp h
    obtain ⟨pads, hpads⟩ := padFrom_eq_ok h houtputs
    exact .inr ⟨hchange, dustLimit, pads, hdust, hpads⟩

/-- The last output gets the values of the added inputs. -/
theorem addFrom_eq_ok {additionalFee fuel deficit : Nat}
    (h : addFrom additionalFee fuel deficit b = .ok b') {front : List Output} {last : Output}
    (houtputs : b.outputs = front ++ [last]) :
    ∃ adds, Takes b b' adds ∧ b'.inputs = b.inputs ++ adds ∧
      b'.outputs = front ++ [⟨last.value + b.sumOf adds, last.scriptPubkey⟩] ∧
      (∀ utxo ∈ adds, additionalFee ≤ b.valueOf utxo) ∧
      deficit + adds.length * additionalFee ≤ b.sumOf adds := by
  induction fuel generalizing b deficit last with
  | zero => cases h
  | succ fuel ih =>
    unfold addFrom at h
    split at h
    · obtain ⟨needed, -, h⟩ := bind_eq_ok.mp h
      obtain ⟨⟨⟨utxo, value⟩, taken⟩, hselect, h⟩ := bind_eq_ok.mp h
      obtain ⟨benefit, hbenefit, h⟩ := bind_eq_ok.mp h
      obtain ⟨outputs, hupdate, h⟩ := bind_eq_ok.mp h
      rw [okOr_eq_ok, checkedSub_eq_some] at hbenefit
      obtain ⟨hpaid, rfl⟩ := hbenefit
      obtain ⟨htakes, rfl, hinputs, hsame, -⟩ := selectCardinalUtxo_eq_ok hselect
      rw [hsame, houtputs, updateLast_concat] at hupdate
      obtain ⟨sum, hsum, hupdate⟩ := bind_eq_ok.mp hupdate
      obtain ⟨-, rfl⟩ := addAmount_eq_ok.mp hsum
      cases hupdate
      obtain ⟨adds, hlater, hlaterInputs, hlaterOutputs, hlaterPaid, hcovers⟩ := ih h rfl
      have hstep : Takes b { taken with
          inputs := taken.inputs ++ [utxo]
          outputs := front ++ [⟨last.value + b.valueOf utxo, last.scriptPubkey⟩] } [utxo] :=
        { htakes with }
      have hcons : b.sumOf (utxo :: adds) = b.valueOf utxo + b.sumOf adds := by
        simp [sumOf]
      rw [sumOf_of_fixed hstep.fixed] at hlaterOutputs hcovers
      refine ⟨utxo :: adds, hstep.trans hlater, ?_, ?_, ?_, ?_⟩
      · rw [hlaterInputs, List.append_assoc]
        simp [hinputs]
      · rw [hlaterOutputs, hcons, Nat.add_assoc]
      · intro other hother
        rcases List.mem_cons.mp hother with rfl | hlast
        · exact hpaid
        · rw [← valueOf_of_fixed hstep.fixed]
          exact hlaterPaid other hlast
      · rw [hcons, List.length_cons, Nat.add_mul, Nat.one_mul]
        split at hcovers <;> omega
    · rename_i hnone
      cases h
      refine ⟨[], .refl _, (List.append_nil _).symm, houtputs, nofun, ?_⟩
      simp [sumOf]
      omega

/-- The least value of the recipient's output. -/
def minValue (b : TransactionBuilder) (recipient : Bytes) : Nat :=
  match b.target with
  | .postage => minimalNonDust recipient
  | .value value => value
  | .exactPostage postage => postage

theorem addValue_eq_ok (h : b.addValue = .ok b') {front : List Output} {last : Output}
    (houtputs : b.outputs = front ++ [last]) :
    b.minValue last.scriptPubkey + b.estimateFee < 2 ^ 64 ∧
      ∃ adds, Takes b b' adds ∧ b'.inputs = b.inputs ++ adds ∧
        b'.outputs = front ++ [⟨last.value + b.sumOf adds, last.scriptPubkey⟩] ∧
        (∀ utxo ∈ adds, b.feeRate.fee additionalInputVbytes ≤ b.valueOf utxo) ∧
        b.minValue last.scriptPubkey + b.estimateFee +
          adds.length * b.feeRate.fee additionalInputVbytes ≤ last.value + b.sumOf adds := by
  obtain ⟨found, hfound, h⟩ := bind_eq_ok.mp h
  rw [lastOutput, okOr_eq_ok, houtputs, List.getLast?_concat] at hfound
  obtain rfl := Option.some.inj hfound
  obtain ⟨total, htotal, h⟩ := bind_eq_ok.mp h
  rw [okOr_eq_ok, checkedAdd_eq_some] at htotal
  obtain ⟨hfits, rfl⟩ := htotal
  refine ⟨hfits, ?_⟩
  change b.minValue last.scriptPubkey + b.estimateFee < 2 ^ 64 at hfits
  split at h
  · rename_i deficit hdeficit
    change checkedSub (b.minValue last.scriptPubkey + b.estimateFee) last.value = some deficit
      at hdeficit
    obtain ⟨hle, rfl⟩ := checkedSub_eq_some.mp hdeficit
    obtain ⟨adds, htakes, hinputs, hlast, hpaid, hcovers⟩ := addFrom_eq_ok h houtputs
    exact ⟨adds, htakes, hinputs, hlast, hpaid, by omega⟩
  · rename_i hnone
    change checkedSub (b.minValue last.scriptPubkey + b.estimateFee) last.value = none at hnone
    cases h
    refine ⟨[], .refl _, (List.append_nil _).symm, houtputs, by rintro _ ⟨⟩, ?_⟩
    have hcovered : ¬last.value ≤ b.minValue last.scriptPubkey + b.estimateFee := fun hle => by
      rw [checkedSub, if_pos hle] at hnone
      cases hnone
    simp [sumOf]
    omega

theorem stripValue_eq_ok (h : b.stripValue = .ok b') : b'.fixed = b.fixed ∧ b'.inputs = b.inputs := by
  obtain ⟨satOffset, -, h⟩ := bind_eq_ok.mp h
  obtain ⟨total, -, h⟩ := bind_eq_ok.mp h
  obtain ⟨found, -, h⟩ := bind_eq_ok.mp h
  obtain ⟨value, -, h⟩ := bind_eq_ok.mp h
  split at h
  · cases h
    exact ⟨rfl, rfl⟩
  · dsimp only at h
    split at h
    · obtain ⟨stripped, -, h⟩ := bind_eq_ok.mp h
      obtain ⟨dustLimit, -, h⟩ := bind_eq_ok.mp h
      obtain ⟨needed, -, h⟩ := bind_eq_ok.mp h
      split at h
      · obtain ⟨outputs, -, h⟩ := bind_eq_ok.mp h
        obtain ⟨⟨address, popped⟩, hpop, h⟩ := bind_eq_ok.mp h
        obtain ⟨change, -, h⟩ := bind_eq_ok.mp h
        unfold popChangeAddress at hpop
        split at hpop
        · cases hpop
          cases h
          exact ⟨rfl, rfl⟩
        · cases hpop
      · cases h
        exact ⟨rfl, rfl⟩
    · cases h
      exact ⟨rfl, rfl⟩

theorem deductFee_eq_ok (h : b.deductFee = .ok b') : b'.fixed = b.fixed ∧ b'.inputs = b.inputs := by
  obtain ⟨satOffset, -, h⟩ := bind_eq_ok.mp h
  obtain ⟨total, -, h⟩ := bind_eq_ok.mp h
  obtain ⟨last, -, h⟩ := bind_eq_ok.mp h
  obtain ⟨remaining, -, h⟩ := bind_eq_ok.mp h
  obtain ⟨⟨⟩, -, h⟩ := bind_eq_ok.mp h
  obtain ⟨⟨⟩, -, h⟩ := bind_eq_ok.mp h
  obtain ⟨outputs, -, h⟩ := bind_eq_ok.mp h
  cases h
  exact ⟨rfl, rfl⟩

/-! ### The inputs and outputs between the stages -/

/-- The inputs are the outgoing output between those that pad its front and those that add value, and
the outputs are what lies in front of the outgoing sat and the recipient's. -/
structure Laid (b₀ b : TransactionBuilder) (pads adds : List OutPoint) (front : List Output) :
    Prop where
  fixed : b.fixed = b₀.fixed
  inputs : b.inputs = pads ++ b₀.outgoing.outpoint :: adds
  nodup : b.inputs.Nodup
  left : b.utxos.Nodup ∧ ∀ utxo ∈ b.utxos, utxo ∈ b₀.amounts ∧ utxo ∉ b.inputs
  cardinal : ∀ input ∈ pads ++ adds, b₀.isCardinal input = true ∧ input ∈ b₀.amounts
  outgoing : b₀.outgoing.outpoint ∈ b₀.amounts ∧
    b₀.outgoing.offset < b₀.valueOf b₀.outgoing.outpoint
  outputs : b.outputs = front ++
    [⟨b₀.valueOf b₀.outgoing.outpoint - b₀.outgoing.offset + b₀.sumOf adds, b₀.recipient⟩]
  front : front = [] ∧ pads = [] ∧ b₀.outgoing.offset = 0 ∧
      b.unusedChangeAddresses = b₀.unusedChangeAddresses ∨
    ∃ address, b₀.unusedChangeAddresses.getLast? = some address ∧
      front = [⟨b₀.sumOf pads + b₀.outgoing.offset, address.scriptPubkey⟩] ∧
      b.unusedChangeAddresses = b₀.unusedChangeAddresses.dropLast

variable {b₀ : TransactionBuilder} {pads adds : List OutPoint} {front : List Output}

/-- A builder that the outgoing output is selected and aligned in. -/
theorem laid_of_align (hinputs : b₀.inputs = []) (houtputs : b₀.outputs = [])
    (hutxos : b₀.utxos = b₀.amounts.keys) (hselect : b₀.selectOutgoing = .ok b)
    (halign : b.alignOutgoing = .ok b') :
    ∃ front, Laid b₀ b' [] [] front := by
  obtain ⟨hmem, hoffset, -, rfl⟩ := selectOutgoing_eq_ok hselect
  rw [hinputs, houtputs, List.nil_append, List.nil_append] at halign
  obtain ⟨satOffset, hsat, hform⟩ := alignOutgoing_eq_ok rfl halign
  obtain ⟨pads, adds, hsplit, -, hsat⟩ := satOffsetFrom_eq_ok hsat
  have hpads : pads = [] := by
    cases pads with
    | nil => rfl
    | cons pad pads =>
      obtain ⟨-, hrest⟩ := List.cons.inj hsplit
      simp at hrest
  subst hpads
  have hsat : satOffset = b₀.outgoing.offset := by
    rw [hsat]
    simp [sumOf]
  have hleft : (b₀.utxos.filter (· ≠ b₀.outgoing.outpoint)).Nodup ∧
      ∀ utxo ∈ b₀.utxos.filter (· ≠ b₀.outgoing.outpoint),
        utxo ∈ b₀.amounts ∧ utxo ∉ [b₀.outgoing.outpoint] := by
    rw [hutxos]
    refine ⟨b₀.amounts.keys_nodup.filter _, fun utxo hutxo => ?_⟩
    obtain ⟨hkey, hne⟩ := List.mem_filter.mp hutxo
    exact ⟨AList.mem_keys.mp hkey, by simpa using hne⟩
  rcases hform with ⟨hzero, rfl⟩ | ⟨-, -, address, haddress, rfl⟩
  · refine ⟨[], rfl, rfl, List.nodup_singleton _, hleft, nofun, ⟨hmem, hoffset⟩, ?_, ?_⟩
    · rw [← hsat, hzero]
      rfl
    · exact .inl ⟨rfl, rfl, by rw [← hsat, hzero], rfl⟩
  · refine ⟨[⟨satOffset, address.scriptPubkey⟩], rfl, rfl, List.nodup_singleton _, hleft, nofun,
      ⟨hmem, hoffset⟩, ?_, ?_⟩
    · rw [hsat]
      rfl
    · refine .inr ⟨address, haddress, ?_, rfl⟩
      rw [hsat]
      simp [sumOf]

theorem Laid.mem_amounts (h : Laid b₀ b pads adds front) {input : OutPoint} (hinput : input ∈ b.inputs) :
    input ∈ b₀.amounts := by
  rw [h.inputs, List.mem_append, List.mem_cons] at hinput
  rcases hinput with hpad | rfl | hadd
  · exact (h.cardinal input (List.mem_append_left _ hpad)).2
  · exact h.outgoing.1
  · exact (h.cardinal input (List.mem_append_right _ hadd)).2

/-- The inputs and what is left are parts of the wallet. -/
theorem Laid.total_le (h : Laid b₀ b pads adds front) :
    b₀.sumOf b.inputs + b₀.sumOf b.utxos ≤ b₀.sumOf b₀.amounts.keys := by
  have hnodup : (b.inputs ++ b.utxos).Nodup :=
    List.nodup_append.mpr ⟨h.nodup, h.left.1, fun input hinput utxo hutxo heq =>
      (h.left.2 utxo hutxo).2 (heq ▸ hinput)⟩
  have hsubset : b.inputs ++ b.utxos ⊆ b₀.amounts.keys := by
    intro outpoint hmem
    rcases List.mem_append.mp hmem with hinput | hutxo
    · exact AList.mem_keys.mpr (h.mem_amounts hinput)
    · exact AList.mem_keys.mpr (h.left.2 outpoint hutxo).1
  obtain ⟨sub, hperm, hsublist⟩ := List.subperm_of_subset hnodup hsubset
  calc b₀.sumOf b.inputs + b₀.sumOf b.utxos
      = b₀.sumOf (b.inputs ++ b.utxos) := by simp [sumOf]
    _ = b₀.sumOf sub := ((hperm.map _).sum_eq).symm
    _ ≤ b₀.sumOf b₀.amounts.keys := (hsublist.map _).sum_le_sum fun _ _ => Nat.zero_le _

/-- What a stage takes keeps the inputs apart from one another and from what is left. -/
theorem Laid.takes (h : Laid b₀ b pads adds front) {taken : List OutPoint}
    (htakes : Takes b b' taken) (hinputs : b'.inputs.Perm (taken ++ b.inputs)) :
    b'.fixed = b₀.fixed ∧ b'.inputs.Nodup ∧
      (b'.utxos.Nodup ∧ ∀ utxo ∈ b'.utxos, utxo ∈ b₀.amounts ∧ utxo ∉ b'.inputs) ∧
      ∀ input ∈ taken, b₀.isCardinal input = true ∧ input ∈ b₀.amounts := by
  refine ⟨htakes.fixed.trans h.fixed, ?_, ⟨?_, ?_⟩, ?_⟩
  · rw [hinputs.nodup_iff]
    refine List.nodup_append.mpr ⟨htakes.nodup, h.nodup, fun utxo hutxo input hinput heq => ?_⟩
    exact (h.left.2 utxo (htakes.cardinal utxo hutxo).1).2 (heq ▸ hinput)
  · rw [htakes.utxos]
    exact h.left.1.filter _
  · intro utxo hutxo
    rw [htakes.utxos, List.mem_filter, decide_eq_true_eq] at hutxo
    obtain ⟨hamounts, hapart⟩ := h.left.2 utxo hutxo.1
    rw [hinputs.mem_iff, List.mem_append, not_or]
    exact ⟨hamounts, hutxo.2, hapart⟩
  · intro input hinput
    obtain ⟨-, hcardinal, hamounts⟩ := htakes.cardinal input hinput
    rw [isCardinal_of_fixed h.fixed] at hcardinal
    rw [amounts_of_fixed h.fixed] at hamounts
    exact ⟨hcardinal, hamounts⟩

theorem recipient_of_fixed (h : b'.fixed = b.fixed) : b'.recipient = b.recipient :=
  show b'.fixed.recipient = b.fixed.recipient from congrArg _ h

/-- Padding goes in front of the outgoing output. -/
theorem Laid.pad (h : Laid b₀ b [] [] front) (hpad : b.padAlignmentOutput = .ok b') :
    ∃ pads front', Laid b₀ b' pads [] front' ∧
      ∀ output ∈ front', output.scriptPubkey ≠ b₀.recipient →
        ∃ dustLimit, b.changeDustLimit = .ok dustLimit ∧ dustLimit ≤ output.value := by
  have hrecipient := recipient_of_fixed h.fixed
  rcases h.front with ⟨rfl, -, -, -⟩ | ⟨address, haddress, rfl, hunused⟩
  · rcases padAlignmentOutput_eq_ok hpad h.outputs with ⟨-, rfl⟩ | ⟨hchange, -⟩
    · exact ⟨[], [], h, nofun⟩
    · exact absurd hrecipient.symm hchange
  · rcases padAlignmentOutput_eq_ok hpad h.outputs with
      ⟨hsame, rfl⟩ | ⟨-, dustLimit, pads, hdust, htakes, hinputs, houtputs, hpadded⟩
    · refine ⟨[], _, h, fun output houtput hne => ?_⟩
      rw [List.mem_singleton.mp houtput] at hne
      exact absurd (hsame.trans hrecipient) hne
    · obtain ⟨hfixed, hnodup, hleft, hcardinal⟩ := h.takes htakes (by rw [hinputs])
      have hvalue : (b₀.sumOf [] + b₀.outgoing.offset) + b.sumOf pads =
          b₀.sumOf pads + b₀.outgoing.offset := by
        rw [sumOf_of_fixed h.fixed]
        simp [sumOf]
        omega
      dsimp only at houtputs hpadded
      rw [hvalue] at houtputs hpadded
      refine ⟨pads, [⟨b₀.sumOf pads + b₀.outgoing.offset, address.scriptPubkey⟩], ⟨hfixed, ?_, hnodup,
        hleft, ?_, h.outgoing, houtputs, ?_⟩, fun output houtput _ => ⟨dustLimit, hdust, ?_⟩⟩
      · rw [hinputs, h.inputs]
        rfl
      · rw [List.append_nil]
        exact hcardinal
      · exact .inr ⟨address, haddress, rfl, htakes.unused.trans hunused⟩
      · rw [List.mem_singleton.mp houtput]
        exact hpadded

/-- Value is added behind the outgoing output. -/
theorem Laid.add (h : Laid b₀ b pads [] front) (hadd : b.addValue = .ok b') :
    ∃ adds, Laid b₀ b' pads adds front ∧
      b.minValue b₀.recipient + b.estimateFee < 2 ^ 64 ∧
      b.minValue b₀.recipient + b.estimateFee +
          adds.length * b.feeRate.fee additionalInputVbytes ≤
        b₀.valueOf b₀.outgoing.outpoint - b₀.outgoing.offset + b₀.sumOf adds := by
  obtain ⟨hfits, adds, htakes, hinputs, houtputs, -, hcovers⟩ := addValue_eq_ok hadd h.outputs
  obtain ⟨hfixed, hnodup, hleft, hcardinal⟩ :=
    h.takes htakes (by rw [hinputs]; exact List.perm_append_comm)
  have hsum : b₀.sumOf [] = 0 := rfl
  dsimp only at hfits hcovers houtputs
  rw [hsum, Nat.add_zero, sumOf_of_fixed h.fixed] at hcovers houtputs
  refine ⟨adds, ⟨hfixed, ?_, hnodup, hleft, ?_, h.outgoing, houtputs, ?_⟩, hfits, hcovers⟩
  · rw [hinputs, h.inputs, List.append_assoc]
    rfl
  · intro input hinput
    rcases List.mem_append.mp hinput with hpad | hadded
    · exact h.cardinal input (List.mem_append_left _ hpad)
    · exact hcardinal input hadded
  · rw [htakes.unused]
    exact h.front

/-- A transaction comes out of all the stages. -/
theorem buildTransaction_eq_ok {tx : Transaction} (h : b₀.buildTransaction = .ok tx) :
    ∃ b₁ b₂ b₃ b₄ b₅ b₆ : TransactionBuilder, b₀.selectOutgoing = .ok b₁ ∧
      b₁.alignOutgoing = .ok b₂ ∧ b₂.padAlignmentOutput = .ok b₃ ∧ b₃.addValue = .ok b₄ ∧
      b₄.stripValue = .ok b₅ ∧ b₅.deductFee = .ok b₆ ∧ b₆.build = .ok tx := by
  unfold buildTransaction at h
  split at h
  · cases h
  · cases h
  · obtain ⟨⟨⟩, -, h⟩ := bind_eq_ok.mp h
    obtain ⟨b₁, hselect, h⟩ := bind_eq_ok.mp h
    obtain ⟨b₂, halign, h⟩ := bind_eq_ok.mp h
    obtain ⟨b₃, hpad, h⟩ := bind_eq_ok.mp h
    obtain ⟨b₄, hadd, h⟩ := bind_eq_ok.mp h
    obtain ⟨b₅, hstrip, h⟩ := bind_eq_ok.mp h
    obtain ⟨b₆, hdeduct, h⟩ := bind_eq_ok.mp h
    exact ⟨b₁, b₂, b₃, b₄, b₅, b₆, hselect, halign, hpad, hadd, hstrip, hdeduct, h⟩

end Lord.Wallet.TransactionBuilder
