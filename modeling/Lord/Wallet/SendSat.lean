import Lord.Wallet.RareSats
import Lord.Wallet.SatTransport

/-! A sat that the wallet sends: looked up in what the index serves, paid to an address by the builder,
and served by the index at the front of an output of the address once the transaction is mined. -/

namespace Lord.Wallet

open Bitcoin Ots Ordinals Index
open Sats (Served findInOutputs findSatInOutputs)
open TransactionBuilder (Delivers IsPosition spent)

/-! ### The command -/

/-- What the wallet knows when it sends. -/
structure SendWallet where
  utxos : AList fun _ : OutPoint => TxOut
  lockedUtxos : Finset OutPoint
  network : Network
  /-- The node's two fresh addresses for change. -/
  change : Result (Address × Address)
  /-- What the server tells of the outputs. -/
  outputs : Sats.Wallet

/-- How the command ends without a transaction. -/
inductive SendFailure where
  | err (err : Error)
  | builder (stop : TransactionBuilder.Stop)

/-- `Wallet::create_unsigned_send_satpoint_transaction`. -/
def createUnsignedSendSatpointTransaction (wallet : SendWallet) (destination : Address)
    (satpoint : SatPoint) (postage : Option Nat) (feeRate : FeeRate) :
    Except SendFailure Transaction := do
  let change ← wallet.change.mapError .err
  let target := match postage with
    | some postage => .exactPostage postage
    | none => .postage
  (TransactionBuilder.new satpoint ∅ wallet.utxos wallet.lockedUtxos ∅ destination.scriptPubkey change
    feeRate target wallet.network).buildTransaction.mapError .builder

/-- `Send::run` for a sat, up to the signature. -/
def sendSat (wallet : SendWallet) (address : Address) (sat : Nat) (postage : Option Nat)
    (feeRate : FeeRate) : Except SendFailure Transaction := do
  let satpoint ← (findSatInOutputs wallet.outputs sat).mapError .err
  createUnsignedSendSatpointTransaction wallet address satpoint postage feeRate

/-- The node's signature changes scripts and witnesses of inputs only. -/
structure Signs (tx signed : Transaction) : Prop where
  inputs : spent signed = spent tx
  outputs : signed.output = tx.output

/-- What the transaction spends is unspent in the chain, as the wallet has it. -/
def Confirmed (chain : ChainState) (wallet : SendWallet) (tx : Transaction) : Prop :=
  ∀ outpoint ∈ spent tx, ∀ output, wallet.utxos.lookup outpoint = some output →
    chain.utxos.lookup outpoint = some output

/-- One output pays the address.  While it is unspent, `find` answers that the sat is at its front, and so
does the search of a wallet that has this output. -/
def Arrives (env : Query.Env) (tables : Tables) (address : Address) (sat : Nat) (tx : Transaction)
    (txid : Bytes32) : Prop :=
  ∃ k, k < tx.output.length ∧
    (∀ (j : Nat) output, tx.output[j]? = some output →
      (output.scriptPubkey = address.scriptPubkey ↔ j = k)) ∧
    (∀ rows, EntryRows tables rows → outpointAt txid k ∈ rows.map Prod.fst →
      Index.find env.config tables rows sat = .ok (some ⟨outpointAt txid k, 0⟩)) ∧
    ∀ wallet, Served env tables wallet → wallet.hasSatIndex = true →
      (∃ ranges, (outpointAt txid k, some ranges) ∈ wallet.outputInfo) →
        findSatInOutputs wallet sat = .ok ⟨outpointAt txid k, 0⟩

/-! ### The lookup -/

section Lookup

variable {env : Query.Env} {chain : ChainState} {ledger : Ledger} {s : IndexState} {sat : Nat}
  {point : SatPoint}

/-- The search ends at the one output that has the sat in the chain. -/
theorem findInOutputs_eq_some (h : Conserved chain.height chain ledger [])
    {info : List (OutPoint × Option (List SatRange))}
    (hranges : ∀ outpoint ranges, (outpoint, some ranges) ∈ info →
      ranges = rangesAt chain ledger outpoint) :
    findInOutputs sat info = some point ↔ (∃ ranges, (point.outpoint, some ranges) ∈ info) ∧
      (sats (rangesAt chain ledger point.outpoint))[point.offset]? = some sat := by
  induction info with
  | nil => simp [findInOutputs]
  | cons output rest ih =>
    have hrest := ih fun outpoint ranges hmem => hranges outpoint ranges (List.mem_cons_of_mem _ hmem)
    obtain ⟨outpoint, known⟩ := output
    cases known with
    | none =>
      rw [findInOutputs, hrest]
      simp
    | some ranges =>
      obtain rfl := hranges outpoint ranges List.mem_cons_self
      have hnodup := h.nodup_rangesAt outpoint
      rw [findInOutputs]
      cases hfind : findInRanges sat 0 (rangesAt chain ledger outpoint) with
      | some offset =>
        obtain ⟨i, hi, hoffset⟩ := (findInRanges_eq_some hnodup).mp hfind
        obtain rfl : offset = i := by omega
        dsimp only
        constructor
        · intro heq
          obtain rfl := Option.some.inj heq
          exact ⟨⟨_, List.mem_cons_self⟩, hi⟩
        · rintro ⟨-, hsat⟩
          obtain ⟨found, place⟩ := point
          dsimp only at hsat
          obtain rfl : outpoint = found := by
            by_contra hne
            exact h.disjoint_rangesAt hne (List.mem_of_getElem? hi) (List.mem_of_getElem? hsat)
          have hlt := (List.getElem?_eq_some_iff.mp hi).1
          rw [(List.getElem?_inj hlt hnodup).mp (hi.trans hsat.symm)]
      | none =>
        dsimp only
        rw [hrest]
        refine and_congr_left fun hsat => ?_
        constructor
        · rintro ⟨ranges, hmem⟩
          exact ⟨ranges, List.mem_cons_of_mem _ hmem⟩
        · rintro ⟨ranges, hmem⟩
          rcases List.mem_cons.mp hmem with heq | hmem
          · obtain ⟨rfl, -⟩ := Prod.mk.inj heq
            rw [(findInRanges_eq_some hnodup).mpr ⟨_, hsat, rfl⟩] at hfind
            cases hfind
          · exact ⟨ranges, hmem⟩

/-- A wallet finds a sat in the one output of it that has the sat in the chain. -/
theorem findSatInOutputs_served (h : Settled env.config chain ledger s)
    (hsats : env.config.indexSats = true) {wallet : Sats.Wallet} (hserved : Served env s.tables wallet) :
    findSatInOutputs wallet sat = .ok point ↔ wallet.hasSatIndex = true ∧
      (∃ ranges, (point.outpoint, some ranges) ∈ wallet.outputInfo) ∧
        (sats (rangesAt chain ledger point.outpoint))[point.offset]? = some sat := by
  rw [← findInOutputs_eq_some h.conserved fun outpoint ranges hmem =>
    h.served hsats (hserved.ranges _ hmem), findSatInOutputs]
  split
  · rename_i hindex
    rw [okOr_eq_ok]
    exact ⟨fun hfind => ⟨hindex, hfind⟩, And.right⟩
  · rename_i hindex
    constructor
    · intro hfind
      cases hfind
    · intro hfind
      exact absurd hfind.1 hindex

end Lookup

/-! ### The transfer -/

/-- The builder takes the inputs for what they are worth in the chain. -/
def ValuesInputs (chain : ChainState) (b : TransactionBuilder) (tx : Transaction) : Prop :=
  ∀ outpoint ∈ spent tx, ∃ output, chain.utxos.lookup outpoint = some output ∧
    output.value.toNat = b.valueOf outpoint

section Transfer

variable {chain chain' : ChainState} {b : TransactionBuilder} {tx signed : Transaction} {sat : Nat}

theorem ValuesInputs.mem (h : ValuesInputs chain b tx) :
    ∀ outpoint ∈ spent tx, outpoint ∈ chain.utxos := by
  intro outpoint hin
  obtain ⟨output, hlookup, -⟩ := h outpoint hin
  exact AList.lookup_isSome.mp (by rw [hlookup]; rfl)

/-- A sat of an input has the position that the builder computes among all of them. -/
theorem ValuesInputs.getElem?_sats {ledger : Ledger} (hvalues : ValuesInputs chain b tx)
    (h : Conserved chain.height chain ledger []) {point : SatPoint} {position : Nat}
    (hposition : IsPosition b tx point position)
    (hsat : (sats (ledger.ranges point.outpoint))[point.offset]? = some sat) :
    (sats ((spent tx).flatMap ledger.ranges))[position]? = some sat := by
  obtain ⟨i, hi, rfl⟩ := hposition
  have hlengths : ((spent tx).map fun outpoint => sats (ledger.ranges outpoint)).map List.length =
      (spent tx).map b.valueOf := by
    rw [List.map_map]
    refine List.map_congr_left fun outpoint hin => ?_
    obtain ⟨output, hlookup, hvalue⟩ := hvalues outpoint hin
    exact (length_sats _).trans ((h.values _ _ hlookup).trans hvalue)
  have hpart : ((spent tx).map fun outpoint => sats (ledger.ranges outpoint))[i]? =
      some (sats (ledger.ranges point.outpoint)) := by
    rw [List.getElem?_map, hi]
    rfl
  have hdealt := Dealing.getElem?_flatten hpart (List.getElem?_eq_some_iff.mp hsat).1
  rw [hlengths] at hdealt
  rw [sats, List.flatMap_assoc, List.flatMap_def]
  exact hdealt.trans hsat

/-- The output of the recipient starts with the outgoing sat once the transaction is mined, and in every
chain from there on. -/
theorem first_sat_of_delivers {blocks more : List BlockData} (hvalid : applyBlocks blocks = some chain)
    (hvalid' : applyBlocks (blocks ++ more) = some chain') (hdelivers : Delivers b tx)
    (hvalues : ValuesInputs chain b tx) (hsigned : Signs tx signed) {txid : Bytes32}
    (hmined : (signed, txid) ∈ more.flatMap transfers)
    (hsat : (sats ((ledgerBlocks blocks).2.ranges b.outgoing.outpoint))[b.outgoing.offset]? = some sat) :
    ∃ k, k < tx.output.length ∧ outpointAt txid k ≠ OutPoint.null ∧
      (∀ (j : Nat) output, tx.output[j]? = some output →
        (output.scriptPubkey = b.recipient ↔ j = k)) ∧
      (sats ((ledgerBlocks (blocks ++ more)).2.ranges (outpointAt txid k)))[0]? = some sat := by
  obtain ⟨-, hconserved, -⟩ := ordinal_blocks hvalid
  obtain ⟨-, -, hflowed⟩ := ordinal_blocks hvalid'
  have htransfer : (signed, txid) ∈ (blocks ++ more).flatMap transfers := by
    rw [List.flatMap_append]
    exact List.mem_append_right _ hmined
  obtain ⟨k, position, honly, hposition, hstart, value, hvalue, -, hlt⟩ := hdelivers.recipient
  rw [TransactionBuilder.outputValues, List.getElem?_map] at hvalue
  obtain ⟨output, hget, rfl⟩ := Option.map_eq_some_iff.mp hvalue
  have hk := (List.getElem?_eq_some_iff.mp hget).1
  have hmany := hflowed.outputs _ htransfer
  dsimp only at hmany
  rw [hsigned.outputs] at hmany
  refine ⟨k, hk, outpointAt_ne_null txid (by omega), honly, ?_⟩
  -- the inputs have the ranges that they had before they were spent
  have hsame : (spent signed).flatMap (ledgerBlocks (blocks ++ more)).2.ranges =
      (spent tx).flatMap (ledgerBlocks blocks).2.ranges := by
    rw [hsigned.inputs]
    exact List.flatMap_congr fun outpoint hspent =>
      (kept_blocks hvalid hvalid').ranges _ (hconserved.txids _ (hvalues.mem outpoint hspent))
  have hget' : signed.output[k]? = some output := by rw [hsigned.outputs, hget]
  calc (sats ((ledgerBlocks (blocks ++ more)).2.ranges (outpointAt txid k)))[0]?
      = (sats ((spent signed).flatMap (ledgerBlocks (blocks ++ more)).2.ranges))[
          Dealing.start (outputValues signed.output) k + 0]? :=
        hflowed.flows _ htransfer k output 0 hget' (by omega)
    _ = (sats ((spent tx).flatMap (ledgerBlocks blocks).2.ranges))[position]? := by
        rw [hsame, hsigned.outputs, Nat.add_zero, hstart]
        rfl
    _ = some sat := hvalues.getElem?_sats hconserved hposition hsat

/-- The transaction of the command delivers the sat that the wallet has found. -/
theorem delivers_of_sendSat {wallet : SendWallet} {address : Address} {postage : Option Nat}
    {feeRate : FeeRate}
    (h : sendSat wallet address sat postage feeRate = .ok tx) :
    ∃ satpoint, findSatInOutputs wallet.outputs sat = .ok satpoint ∧
      ∃ b : TransactionBuilder, b.amounts = wallet.utxos ∧ b.outgoing = satpoint ∧
        b.recipient = address.scriptPubkey ∧ Delivers b tx ∧
          ∀ outpoint ∈ spent tx, outpoint ∈ wallet.utxos := by
  obtain ⟨satpoint, hfind, h⟩ := bind_eq_ok.mp h
  obtain ⟨change, -, h⟩ := bind_eq_ok.mp h
  rw [mapError_eq_ok] at hfind h
  obtain ⟨b, hfixed, hnodup, hamounts, hcardinal, hbefore, hbuild⟩ :=
    TransactionBuilder.exists_build h
  refine ⟨satpoint, hfind, _, rfl, rfl, rfl,
    TransactionBuilder.delivers_of_build hfixed hnodup hcardinal hbefore hbuild, ?_⟩
  rw [(TransactionBuilder.build_eq_ok hbuild).1, TransactionBuilder.spent_transaction]
  exact hamounts

/-- A sat that the command pays to an address is the first one of an output of the address as soon as the
transaction is mined, in every schedule of the updater's commits. -/
theorem sent_sat_arrives {env : Query.Env} (hsats : env.config.indexSats = true)
    {events more : List Event} {order order' : CacheOrder} {s s' : IndexState}
    (hvalid : applyBlocks (eventBlocks events) = some chain)
    (hrun : runEvents env.config .start (events ++ [.commit order]) = .ok s)
    {wallet : SendWallet} (hserved : Served env s.tables wallet.outputs) {address : Address}
    {postage : Option Nat} {feeRate : FeeRate}
    (hsend : sendSat wallet address sat postage feeRate = .ok tx)
    (hconfirmed : Confirmed chain wallet tx) (hsigned : Signs tx signed) {txid : Bytes32}
    (hmined : (signed, txid) ∈ (eventBlocks more).flatMap transfers)
    (hvalid' : applyBlocks (eventBlocks (events ++ more)) = some chain')
    (hrun' : runEvents env.config .start (events ++ more ++ [.commit order']) = .ok s') :
    Arrives env s'.tables address sat tx txid := by
  have h := settled_run hsats hvalid hrun
  have h' := settled_run hsats hvalid' hrun'
  have hblocks : eventBlocks (events ++ more) = eventBlocks events ++ eventBlocks more :=
    List.filterMap_append
  rw [hblocks] at hvalid' h'
  obtain ⟨point, hfind, b, hamounts, rfl, hrecipient, hdelivers, hspent⟩ := delivers_of_sendSat hsend
  have hvalues : ValuesInputs chain b tx := by
    intro outpoint hin
    obtain ⟨output, hlookup⟩ := Option.isSome_iff_exists.mp (AList.lookup_isSome.mpr (hspent _ hin))
    refine ⟨output, hconfirmed _ hin _ hlookup, ?_⟩
    rw [TransactionBuilder.valueOf, hamounts, hlookup]
    rfl
  have hin : b.outgoing.outpoint ∈ chain.utxos := by
    obtain ⟨k, position, -, ⟨i, hi, -⟩, -⟩ := hdelivers.recipient
    exact hvalues.mem _ (List.mem_of_getElem? hi)
  obtain ⟨-, -, hsat⟩ := (findSatInOutputs_served h hsats hserved).mp hfind
  have hnotLost : b.outgoing.outpoint ≠ OutPoint.null := fun heq => h.conserved.not_null (heq ▸ hin)
  rw [rangesAt, if_neg hnotLost, if_pos hin] at hsat
  obtain ⟨k, hk, hnull, honly, hfirst⟩ :=
    first_sat_of_delivers hvalid hvalid' hdelivers hvalues hsigned hmined hsat
  have hserves : outpointAt txid k ∈ chain'.utxos → (sats (rangesAt chain'
      (ledgerBlocks (eventBlocks events ++ eventBlocks more)).2 (outpointAt txid k)))[0]? = some sat := by
    intro hunspent
    rw [rangesAt, if_neg hnull, if_pos hunspent]
    exact hfirst
  refine ⟨k, hk, hrecipient ▸ honly, ?_, ?_⟩
  · intro rows hrows hmem
    obtain ⟨⟨outpoint, entry⟩, hrow, heq⟩ := List.mem_map.mp hmem
    obtain rfl : outpoint = outpointAt txid k := heq
    exact h'.find_eq hsats hrows (hserves (h'.mem_of_entry hnull ((hrows.table _ entry).mp hrow)))
  · intro other hother hindex hholds
    refine (findSatInOutputs_served h' hsats hother).mpr ⟨hindex, hholds, ?_⟩
    obtain ⟨ranges, hmem⟩ := hholds
    exact hserves (h'.mem_of_stored hnull (hother.ranges _ hmem))

end Transfer

/-! ### A sat sent -/

/-- The wallet with the output of the first block. -/
def exampleSender : SendWallet where
  utxos := [⟨Sats.exampleOutput, ⟨2000000000, [0x51]⟩⟩].toAList
  lockedUtxos := ∅
  network := .bitcoin
  change := .ok (TransactionBuilder.exampleAddress 1, TransactionBuilder.exampleAddress 2)
  outputs := Sats.exampleWallet

def exampleSend : Except SendFailure Transaction :=
  sendSat exampleSender (TransactionBuilder.exampleAddress 3) 10000 none
    TransactionBuilder.exampleFeeRate

/-- The second block has the transaction of the command behind its coinbase. -/
def sentBlock (tx : Transaction) : BlockData :=
  { coinbaseBlock 2 [] with txdata := (coinbaseBlock 2 []).txdata ++ [(tx, Bytes32.replicate 3)] }

/-- The second output of the transaction. -/
def arrivedOutput : OutPoint := outpointAt (Bytes32.replicate 3) 1

/-- The address finds the sat at the front of that output. -/
theorem sent_sat_arrives_example :
    ∃ tx s wallet, exampleSend = .ok tx ∧ runEvents Sats.exampleEnv.config .start
        (Sats.exampleBlocks ++ [.block (sentBlock tx)] ++ [.commit .asListed]) = .ok s ∧
      Served Sats.exampleEnv s.tables wallet ∧
        findSatInOutputs wallet 10000 = .ok ⟨arrivedOutput, 0⟩ := by
  obtain ⟨tx, hsend⟩ := exists_of_isOk (show exampleSend.isOk = true by decide +kernel)
  have hsecond : exampleSend.toOption.map (fun tx => (tx.output[1]?.map TxOut.scriptPubkey,
      (applyBlocks (eventBlocks (Sats.exampleBlocks ++ [.block (sentBlock tx)]))).map
        fun chain => (chain.utxos.lookup arrivedOutput).isSome)) =
      some (some (TransactionBuilder.exampleKey 3), some true) := by decide +kernel
  rw [hsend] at hsecond
  obtain ⟨hscript, hvalid'⟩ := Prod.mk.inj (Option.some.inj hsecond)
  obtain ⟨chain', hvalid', hmem⟩ := Option.map_eq_some_iff.mp hvalid'
  obtain ⟨output, hget, hscript⟩ := Option.map_eq_some_iff.mp hscript
  obtain ⟨chain, s, hvalid, hrun, hlookup, hserved⟩ := Sats.exampleBlocks_served
  have hconfirmed : Confirmed chain exampleSender tx := by
    rintro outpoint - output hfind
    have hentry := AList.mem_lookup_iff.mp hfind
    obtain ⟨rfl, hsame⟩ := Sigma.mk.inj (List.mem_singleton.mp hentry)
    rw [hlookup, eq_of_heq hsame]
  obtain ⟨s', hrun'⟩ := @Sats.exists_run _ .asListed _ hvalid'
  have h' := settled_run rfl hvalid' hrun'
  have hmined : (tx, Bytes32.replicate 3) ∈
      (eventBlocks [.block (sentBlock tx)]).flatMap transfers := List.mem_singleton_self _
  obtain ⟨k, -, honly, -, harrives⟩ := sent_sat_arrives rfl hvalid hrun hserved hsend hconfirmed
    ⟨rfl, rfl⟩ hmined hvalid' hrun'
  obtain rfl : 1 = k := (honly 1 output hget).mp hscript
  obtain ⟨ranges, hstored⟩ : ∃ ranges, Query.storedRanges Sats.exampleEnv s'.tables arrivedOutput =
      .ok (some ranges) := ⟨_, h'.serves rfl (AList.lookup_isSome.mp hmem)⟩
  have hmine : Served Sats.exampleEnv s'.tables ⟨true, [(arrivedOutput, some ranges)]⟩ := by
    refine ⟨by simp, fun found hfound => ?_⟩
    rw [List.mem_singleton.mp hfound]
    exact hstored
  exact ⟨tx, s', _, hsend, hrun', hmine, harrives _ hmine rfl ⟨_, List.mem_singleton_self _⟩⟩

end Lord.Wallet
