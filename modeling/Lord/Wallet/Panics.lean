import Lord.Ordinals.Sat
import Lord.Wallet.Fees

/-! The stages that collect the inputs never panic. -/

namespace Lord.Wallet.TransactionBuilder

open Bitcoin Ots
open Index (SatPoint)
open Ordinals (supply)

/-! ### Panics -/

/-- A stage returns, with a builder or an error. -/
def NoPanic {α : Type} (r : Build α) : Prop := ∀ message, r ≠ .error (.panic message)

theorem noPanic_ok {α : Type} (a : α) : NoPanic (.ok a : Build α) := nofun

theorem noPanic_err {α : Type} (err : Error) : NoPanic (.error (.err err) : Build α) := nofun

theorem not_noPanic {α : Type} (message : String) : ¬NoPanic (.error (.panic message) : Build α) :=
  fun h => h message rfl

/-- Two stages in a row. -/
theorem noPanic_bind {α β : Type} {r : Build α} {f : α → Build β} :
    NoPanic (r >>= f) ↔ NoPanic r ∧ ∀ a, r = .ok a → NoPanic (f a) := by
  cases r with
  | ok a =>
    show NoPanic (f a) ↔ _
    constructor
    · intro h
      refine ⟨noPanic_ok a, fun _ heq => ?_⟩
      cases heq
      exact h
    · rintro ⟨-, h⟩
      exact h a rfl
  | error stop =>
    show NoPanic (.error stop : Build β) ↔ NoPanic (.error stop : Build α) ∧ _
    constructor
    · intro h
      exact ⟨fun message heq => h message (by cases heq; rfl), nofun⟩
    · rintro ⟨h, -⟩ message heq
      exact h message (by cases heq; rfl)

theorem noPanic_bind_of_eq {α β : Type} {r : Build α} {f : α → Build β} {a : α} (h : r = .ok a) :
    NoPanic (r >>= f) ↔ NoPanic (f a) := by
  rw [h]
  rfl

theorem noPanic_okOr_err {α : Type} (o : Option α) (err : Error) : NoPanic (okOr o (.err err)) := by
  cases o <;> nofun

theorem noPanic_assert {condition : Bool} {message : String} :
    NoPanic (assert condition message) ↔ condition = true := by
  cases condition with
  | false => exact iff_of_false (not_noPanic message) nofun
  | true => exact iff_of_true (noPanic_ok ()) rfl

theorem noPanic_assert_bind {α : Type} {condition : Bool} {message : String} {f : Unit → Build α} :
    NoPanic (assert condition message >>= f) ↔ condition = true ∧ NoPanic (f ()) := by
  rw [noPanic_bind, noPanic_assert]
  refine and_congr_right fun h => ?_
  rw [h]
  exact ⟨fun hall => hall () rfl, fun hone _ _ => hone⟩

/-! ### The wallet -/

/-- What holds of the wallet that a builder is made for: every output has a value, all of them lie
within the supply, and the two change addresses are taproot addresses of the builder's network. -/
structure Valid (b : TransactionBuilder) : Prop where
  positive : ∀ outpoint ∈ b.amounts, 0 < b.valueOf outpoint
  supply : b.sumOf b.amounts.keys ≤ supply
  inscribed : ∀ satpoint ∈ b.inscriptions, satpoint.offset < Ordinals.supply
  change : ∃ first second, b.unusedChangeAddresses = [first, second] ∧ first ≠ second ∧
    ∀ address ∈ [first, second], IsTaproot address.scriptPubkey ∧
      address.network = addressNetwork address.scriptPubkey b.network

/-- A builder that no stage has worked on. -/
structure Fresh (b : TransactionBuilder) : Prop where
  inputs : b.inputs = []
  outputs : b.outputs = []
  utxos : b.utxos = b.amounts.keys
  change : b.changeAddresses = b.unusedChangeAddresses.dedup

variable {b b' b₀ : TransactionBuilder} {pads adds : List OutPoint} {front : List Output}

theorem sumOf_filter_add_le {utxo : OutPoint} {utxos : List OutPoint} (h : utxo ∈ utxos) :
    b.sumOf (utxos.filter (· ≠ utxo)) + b.valueOf utxo ≤ b.sumOf utxos := by
  induction utxos with
  | nil => cases h
  | cons first rest ih =>
    have hle : b.sumOf (rest.filter (· ≠ utxo)) ≤ b.sumOf rest :=
      (List.filter_sublist.map _).sum_le_sum fun _ _ => Nat.zero_le _
    have hcons : b.sumOf (first :: rest) = b.valueOf first + b.sumOf rest := by
      rw [sumOf, sumOf, List.map_cons, List.sum_cons]
    rw [hcons, List.filter_cons]
    by_cases heq : first = utxo
    · rw [if_neg (by simpa using heq), heq]
      omega
    · have hrest : utxo ∈ rest := (List.mem_cons.mp h).resolve_left (Ne.symm heq)
      have hstep := ih hrest
      have hfilter : b.sumOf (first :: rest.filter (· ≠ utxo)) =
          b.valueOf first + b.sumOf (rest.filter (· ≠ utxo)) := by
        rw [sumOf, sumOf, List.map_cons, List.sum_cons]
      rw [if_pos (by simpa using heq), hfilter]
      omega

/-! ### Selection -/

theorem noPanic_bestMatchFrom {targetValue : Nat} {preferUnder : Bool}
    {bestMatch : Option (OutPoint × Nat)} {utxos : List OutPoint}
    (h : ∀ utxo ∈ utxos, utxo ∈ b.amounts) :
    NoPanic (b.bestMatchFrom targetValue preferUnder bestMatch utxos) := by
  induction utxos generalizing bestMatch with
  | nil => exact noPanic_ok _
  | cons utxo rest ih =>
    have hrest : ∀ utxo ∈ rest, utxo ∈ b.amounts := fun utxo hutxo =>
      h utxo (List.mem_cons_of_mem _ hutxo)
    unfold bestMatchFrom
    split
    · rw [noPanic_bind_of_eq (amountOf_eq_ok.mpr ⟨h utxo List.mem_cons_self, rfl⟩)]
      exact ih hrest
    · exact ih hrest

theorem noPanic_selectCardinalUtxo {targetValue : Nat} {preferUnder : Bool}
    (h : ∀ utxo ∈ b.utxos, utxo ∈ b.amounts) :
    NoPanic (b.selectCardinalUtxo targetValue preferUnder) := by
  refine noPanic_bind.mpr ⟨noPanic_bestMatchFrom h, fun bestMatch _ => ?_⟩
  exact noPanic_bind.mpr ⟨noPanic_okOr_err _ _, fun _ _ => noPanic_ok _⟩

/-- The values that are collected and those that are left. -/
structure Budget (b : TransactionBuilder) (collected fuel : Nat) : Prop where
  wallet : ∀ utxo ∈ b.utxos, utxo ∈ b.amounts
  enough : b.utxos.length < fuel
  total : collected + b.sumOf b.utxos ≤ supply

/-- A selection keeps to the budget. -/
theorem Budget.select {collected fuel targetValue value : Nat} {preferUnder : Bool} {utxo : OutPoint}
    (h : Budget b collected (fuel + 1))
    (hselect : b.selectCardinalUtxo targetValue preferUnder = .ok ((utxo, value), b')) :
    Budget b' (collected + value) fuel := by
  obtain ⟨htakes, rfl, -, -, hlength⟩ := selectCardinalUtxo_eq_ok hselect
  have hutxos : b'.utxos = b.utxos.filter (· ≠ utxo) := by
    rw [htakes.utxos]
    exact List.filter_congr fun other _ => by simp
  have hsum := sumOf_filter_add_le (b := b) (htakes.cardinal utxo (List.mem_singleton_self _)).1
  have htotal := h.total
  have henough := h.enough
  refine ⟨fun other hother => ?_, by omega, ?_⟩
  · rw [amounts_of_fixed htakes.fixed]
    rw [hutxos] at hother
    exact h.wallet other (List.mem_of_mem_filter hother)
  · rw [sumOf_of_fixed htakes.fixed, hutxos]
    omega

theorem addAmount_of_lt {a c : Nat} (h : a + c < 2 ^ 64) : addAmount a c = .ok (a + c) :=
  addAmount_eq_ok.mpr ⟨h, rfl⟩

theorem supply_lt : supply < 2 ^ 51 := by decide

theorem noPanic_padFrom {dustLimit fuel : Nat} {first : Output} {rest : List Output}
    (houtputs : b.outputs = first :: rest) (h : Budget b first.value fuel) :
    NoPanic (padFrom dustLimit fuel b) := by
  induction fuel generalizing b first with
  | zero => exact absurd h.enough (Nat.not_lt_zero _)
  | succ fuel ih =>
    unfold padFrom
    rw [houtputs]
    dsimp only
    split
    · refine noPanic_bind.mpr ⟨noPanic_selectCardinalUtxo h.wallet, ?_⟩
      rintro ⟨⟨utxo, size⟩, taken⟩ hselect
      have htaken := h.select hselect
      have htotal := htaken.total
      have hsupply := supply_lt
      dsimp only
      rw [noPanic_bind_of_eq (addAmount_of_lt (by omega))]
      exact ih rfl ⟨htaken.wallet, htaken.enough, htaken.total⟩
    · exact noPanic_ok _

theorem noPanic_addFrom {additionalFee fuel deficit : Nat} {front : List Output} {last : Output}
    (houtputs : b.outputs = front ++ [last]) (h : Budget b last.value fuel) :
    NoPanic (addFrom additionalFee fuel deficit b) := by
  induction fuel generalizing b deficit last with
  | zero => exact absurd h.enough (Nat.not_lt_zero _)
  | succ fuel ih =>
    unfold addFrom
    split
    · refine noPanic_bind.mpr ⟨noPanic_okOr_err _ _, fun needed _ => ?_⟩
      refine noPanic_bind.mpr ⟨noPanic_selectCardinalUtxo h.wallet, ?_⟩
      rintro ⟨⟨utxo, value⟩, taken⟩ hselect
      have htaken := h.select hselect
      have htotal := htaken.total
      have hsupply := supply_lt
      obtain ⟨-, -, -, hsame, -⟩ := selectCardinalUtxo_eq_ok hselect
      refine noPanic_bind.mpr ⟨noPanic_okOr_err _ _, fun benefit _ => ?_⟩
      rw [hsame, houtputs, updateLast_concat, addAmount_of_lt (by omega)]
      exact ih rfl ⟨htaken.wallet, htaken.enough, htaken.total⟩
    · exact noPanic_ok _

/-! ### Stages -/

theorem noPanic_checkRecipient (b : TransactionBuilder) : NoPanic b.checkRecipient := by
  unfold checkRecipient
  split
  · exact noPanic_ok _
  · split
    · exact noPanic_err _
    · split
      · exact noPanic_err _
      · dsimp only
        split
        · exact noPanic_ok _
        · split
          · exact noPanic_err _
          · exact noPanic_ok _
        · split
          · exact noPanic_err _
          · exact noPanic_ok _

/-- The address that change goes to next, when one is left. -/
theorem changeDustLimit_eq {address : Address} (h : b.unusedChangeAddresses.getLast? = some address)
    (htaproot : IsTaproot address.scriptPubkey) : b.changeDustLimit = .ok 330 := by
  rw [changeDustLimit, h, ← htaproot.minimalNonDust]

theorem noPanic_checkInscriptions {outgoing : SatPoint} {dustLimit : Nat}
    {inscriptions : List (Σ _ : SatPoint, List InscriptionId)}
    (h : ∀ entry ∈ inscriptions, entry.1.offset + dustLimit < 2 ^ 64) :
    NoPanic (checkInscriptions outgoing dustLimit inscriptions) := by
  induction inscriptions with
  | nil => exact noPanic_ok _
  | cons first rest ih =>
    have hrest := ih fun entry hentry => h entry (List.mem_cons_of_mem _ hentry)
    obtain ⟨inscribed, ids⟩ := first
    unfold checkInscriptions
    split
    · rw [noPanic_bind_of_eq (addU64_eq_ok.mpr ⟨h _ List.mem_cons_self, rfl⟩)]
      split
      · exact noPanic_err _
      · exact hrest
    · exact hrest

theorem Valid.first_unused (h : Valid b) : ∃ address, b.unusedChangeAddresses.getLast? = some address ∧
    IsTaproot address.scriptPubkey := by
  obtain ⟨first, second, hunused, -, hall⟩ := h.change
  refine ⟨second, by rw [hunused]; rfl, (hall second ?_).1⟩
  exact List.mem_cons_of_mem _ (List.mem_singleton_self _)

theorem Valid.second_unused (h : Valid b) :
    ∃ address, b.unusedChangeAddresses.dropLast.getLast? = some address ∧
      IsTaproot address.scriptPubkey := by
  obtain ⟨first, second, hunused, -, hall⟩ := h.change
  exact ⟨first, by rw [hunused]; rfl, (hall first List.mem_cons_self).1⟩

theorem noPanic_selectOutgoing (h : Valid b) : NoPanic b.selectOutgoing := by
  obtain ⟨address, haddress, htaproot⟩ := h.first_unused
  unfold selectOutgoing
  rw [noPanic_bind_of_eq (changeDustLimit_eq haddress htaproot)]
  refine noPanic_bind.mpr ⟨noPanic_checkInscriptions fun entry hentry => ?_, fun _ _ => ?_⟩
  · have hsupply := supply_lt
    have hoffset := h.inscribed entry.1
      (AList.mem_keys.mpr (List.mem_map_of_mem (List.mem_reverse.mp hentry)))
    omega
  · refine noPanic_bind.mpr ⟨noPanic_okOr_err _ _, fun txOut hlookup => ?_⟩
    rw [okOr_eq_ok] at hlookup
    have hpositive := h.positive b.outgoing.outpoint (AList.lookup_isSome.mp (by rw [hlookup]; rfl))
    rw [valueOf, hlookup] at hpositive
    dsimp only
    split
    · have hsub : okOr (checkedSub txOut.value.toNat 1)
          (.panic "attempt to subtract with overflow" : Stop) = .ok (txOut.value.toNat - 1) :=
        okOr_eq_ok.mpr (checkedSub_eq_some.mpr ⟨hpositive, rfl⟩)
      rw [noPanic_bind_of_eq hsub]
      exact noPanic_err _
    · exact noPanic_ok _

/-- The walk reaches the outgoing sat when the values up to it fit. -/
theorem satOffsetFrom_of_fits {message : String} {start : Nat} {pads adds : List OutPoint}
    (hpads : ∀ pad ∈ pads, pad ≠ b.outgoing.outpoint ∧ pad ∈ b.amounts)
    (hfits : start + b.sumOf pads + b.outgoing.offset < 2 ^ 64) :
    b.satOffsetFrom message start (pads ++ b.outgoing.outpoint :: adds) =
      .ok (start + b.sumOf pads + b.outgoing.offset) := by
  induction pads generalizing start with
  | nil =>
    rw [List.nil_append, satOffsetFrom, if_pos rfl]
    exact addU64_eq_ok.mpr ⟨hfits, rfl⟩
  | cons pad rest ih =>
    have hsum : b.sumOf (pad :: rest) = b.valueOf pad + b.sumOf rest := by
      rw [sumOf, sumOf, List.map_cons, List.sum_cons]
    obtain ⟨hne, hamounts⟩ := hpads pad List.mem_cons_self
    rw [hsum] at hfits ⊢
    rw [List.cons_append, satOffsetFrom, if_neg hne, amountOf_eq_ok.mpr ⟨hamounts, rfl⟩]
    show (addU64 start (b.valueOf pad) >>= _) = _
    rw [addU64_eq_ok.mpr ⟨by omega, rfl⟩]
    show b.satOffsetFrom message (start + b.valueOf pad) _ = _
    rw [ih (fun other hother => hpads other (List.mem_cons_of_mem _ hother)) (by omega),
      Nat.add_assoc start]

/-- The sum of the inputs, with the outgoing output in its place. -/
theorem Laid.sumOf_inputs (h : Laid b₀ b pads adds front) :
    b₀.sumOf b.inputs =
      b₀.sumOf pads + b₀.valueOf b₀.outgoing.outpoint + b₀.sumOf adds := by
  rw [h.inputs]
  simp [sumOf, Nat.add_assoc]

/-- The outgoing sat is behind the padding. -/
theorem Laid.satOffset (h : Laid b₀ b pads adds front) (hvalid : Valid b₀) (message : String) :
    b.satOffsetFrom message 0 b.inputs = .ok (b₀.sumOf pads + b₀.outgoing.offset) := by
  have hnodup := h.nodup
  have htotal := h.total_le
  have hsum := h.sumOf_inputs
  have hoffset := h.outgoing.2
  have hwallet := hvalid.supply
  have hsupply := supply_lt
  have hpads : ∀ pad ∈ pads, pad ≠ b.outgoing.outpoint ∧ pad ∈ b.amounts := by
    intro pad hpad
    rw [outgoing_of_fixed h.fixed, amounts_of_fixed h.fixed]
    refine ⟨fun heq => ?_, (h.cardinal pad (List.mem_append_left _ hpad)).2⟩
    rw [h.inputs] at hnodup
    exact List.disjoint_of_nodup_append hnodup hpad (heq ▸ List.mem_cons_self)
  have hinputs : b.inputs = pads ++ b.outgoing.outpoint :: adds := by
    rw [outgoing_of_fixed h.fixed]
    exact h.inputs
  have hfits : 0 + b.sumOf pads + b.outgoing.offset < 2 ^ 64 := by
    rw [sumOf_of_fixed h.fixed, outgoing_of_fixed h.fixed]
    omega
  rw [hinputs, satOffsetFrom_of_fits hpads hfits, Nat.zero_add, sumOf_of_fixed h.fixed,
    outgoing_of_fixed h.fixed]

theorem Laid.calculateSatOffset (h : Laid b₀ b pads adds front) (hvalid : Valid b₀) :
    b.calculateSatOffset = .ok (b₀.sumOf pads + b₀.outgoing.offset) :=
  h.satOffset hvalid _

/-- What is left fits beside the outputs. -/
theorem Laid.budget (h : Laid b₀ b pads adds front) (hvalid : Valid b₀) {collected : Nat}
    (hcollected : collected ≤ b₀.sumOf b.inputs) : Budget b collected (b.utxos.length + 1) := by
  have htotal := h.total_le
  have hwallet := hvalid.supply
  refine ⟨fun utxo hutxo => ?_, Nat.lt_succ_self _, ?_⟩
  · rw [amounts_of_fixed h.fixed]
    exact (h.left.2 utxo hutxo).1
  · rw [sumOf_of_fixed h.fixed]
    omega

theorem popChangeAddress_eq {address : Address} (h : b.unusedChangeAddresses.getLast? = some address) :
    b.popChangeAddress = .ok (address,
      { b with unusedChangeAddresses := b.unusedChangeAddresses.dropLast }) := by
  unfold popChangeAddress
  rw [h]

theorem noPanic_alignOutgoing (hfresh : Fresh b₀) (hvalid : Valid b₀) (h : b₀.selectOutgoing = .ok b) :
    NoPanic b.alignOutgoing := by
  obtain ⟨hmem, hoffset, -, rfl⟩ := selectOutgoing_eq_ok h
  obtain ⟨address, haddress, -⟩ := hvalid.first_unused
  have hlt := b₀.valueOf_lt b₀.outgoing.outpoint
  simp only [hfresh.inputs, hfresh.outputs, List.nil_append]
  unfold alignOutgoing
  refine noPanic_assert_bind.mpr ⟨rfl, noPanic_assert_bind.mpr ⟨decide_eq_true rfl, ?_⟩⟩
  have hsat : calculateSatOffset { b₀ with
      utxos := b₀.utxos.filter (· ≠ b₀.outgoing.outpoint)
      inputs := [b₀.outgoing.outpoint]
      outputs := [⟨b₀.valueOf b₀.outgoing.outpoint, b₀.recipient⟩] } =
        .ok (0 + sumOf b₀ [] + b₀.outgoing.offset) :=
    satOffsetFrom_of_fits (List.forall_mem_nil _)
      (by simp only [sumOf, List.map_nil, List.sum_nil]; omega)
  have hnone : 0 + sumOf b₀ [] + b₀.outgoing.offset = b₀.outgoing.offset := by
    rw [sumOf, List.map_nil, List.sum_nil]
    omega
  rw [hnone] at hsat
  rw [noPanic_bind_of_eq hsat]
  split
  · exact noPanic_ok _
  · have hpop := popChangeAddress_eq (b := { b₀ with
      utxos := b₀.utxos.filter (· ≠ b₀.outgoing.outpoint)
      inputs := [b₀.outgoing.outpoint]
      outputs := [⟨b₀.valueOf b₀.outgoing.outpoint, b₀.recipient⟩] }) haddress
    rw [noPanic_bind_of_eq hpop]
    have hupdate : updateLast "no output" (subAmount · b₀.outgoing.offset)
        ([⟨b₀.outgoing.offset, address.scriptPubkey⟩] ++
          [⟨b₀.valueOf b₀.outgoing.outpoint, b₀.recipient⟩]) = .ok
        ([⟨b₀.outgoing.offset, address.scriptPubkey⟩] ++
          [⟨b₀.valueOf b₀.outgoing.outpoint - b₀.outgoing.offset, b₀.recipient⟩]) := by
      rw [updateLast_concat, subAmount_eq_ok.mpr ⟨hoffset.le, rfl⟩]
      rfl
    exact (noPanic_bind_of_eq hupdate).mpr (noPanic_ok _)

theorem noPanic_padAlignmentOutput (hvalid : Valid b₀) (h : Laid b₀ b [] [] front) :
    NoPanic b.padAlignmentOutput := by
  have hsum := h.sumOf_inputs
  have hoffset := h.outgoing.2
  have hnone : b₀.sumOf [] = 0 := rfl
  unfold padAlignmentOutput
  rcases h.front with ⟨rfl, -⟩ | ⟨address, -, rfl, hunused⟩
  · rw [h.outputs]
    dsimp only [List.nil_append]
    rw [if_pos (recipient_of_fixed h.fixed).symm]
    exact noPanic_ok _
  · obtain ⟨address', haddress', htaproot⟩ := hvalid.second_unused
    rw [← hunused] at haddress'
    rw [h.outputs]
    dsimp only [List.singleton_append]
    split
    · exact noPanic_ok _
    · rw [noPanic_bind_of_eq (changeDustLimit_eq haddress' htaproot)]
      exact noPanic_padFrom h.outputs (h.budget hvalid (by dsimp only; omega))

theorem noPanic_addValue (hvalid : Valid b₀) (h : Laid b₀ b pads [] front) : NoPanic b.addValue := by
  have hsum := h.sumOf_inputs
  have hoffset := h.outgoing.2
  have hnone : b₀.sumOf [] = 0 := rfl
  unfold addValue
  have hlast : b.lastOutput = .ok
      ⟨b₀.valueOf b₀.outgoing.outpoint - b₀.outgoing.offset + b₀.sumOf [], b₀.recipient⟩ := by
    rw [lastOutput, okOr_eq_ok, h.outputs, List.getLast?_concat]
  rw [noPanic_bind_of_eq hlast]
  refine noPanic_bind.mpr ⟨noPanic_okOr_err _ _, fun total _ => ?_⟩
  dsimp only
  split
  · exact noPanic_addFrom h.outputs (h.budget hvalid (by dsimp only; omega))
  · exact noPanic_ok _

/-! ### The stages together -/

/-- The checks of the recipient and the stages that collect the inputs. -/
def collect (b : TransactionBuilder) : Build TransactionBuilder := do
  b.checkRecipient
  let b ← b.selectOutgoing
  let b ← b.alignOutgoing
  let b ← b.padAlignmentOutput
  b.addValue

/-- The stages that settle the values of the outputs, and the checks of the transaction. -/
def settle (b : TransactionBuilder) : Build Transaction := do
  let b ← b.stripValue
  let b ← b.deductFee
  b.build

theorem buildTransaction_eq (hfresh : Fresh b₀) (hvalid : Valid b₀) :
    b₀.buildTransaction = b₀.collect >>= settle := by
  obtain ⟨first, second, hunused, hne, -⟩ := hvalid.change
  have hchange : b₀.changeAddresses = [first, second] := by
    rw [hfresh.change, hunused]
    exact List.dedup_eq_self.mpr (by simpa using hne)
  unfold buildTransaction
  rw [hchange]
  simp only [collect, bind_assoc]
  rfl

theorem noPanic_collect (hfresh : Fresh b₀) (hvalid : Valid b₀) : NoPanic b₀.collect := by
  refine noPanic_bind.mpr ⟨noPanic_checkRecipient _, fun _ _ => ?_⟩
  refine noPanic_bind.mpr ⟨noPanic_selectOutgoing hvalid, fun b₁ hselect => ?_⟩
  refine noPanic_bind.mpr ⟨noPanic_alignOutgoing hfresh hvalid hselect, fun b₂ halign => ?_⟩
  obtain ⟨front, haligned⟩ := laid_of_align hfresh.inputs hfresh.outputs hfresh.utxos hselect halign
  refine noPanic_bind.mpr ⟨noPanic_padAlignmentOutput hvalid haligned, fun b₃ hpad => ?_⟩
  obtain ⟨pads, front', hpadded, -⟩ := haligned.pad hpad
  exact noPanic_addValue hvalid hpadded

end Lord.Wallet.TransactionBuilder
