import Lord.Calendar.Anchor

/-! The search for the confirmed anchor transaction: the wallet tells its height, or the best chain is
scanned from the tip down. -/

namespace Lord.Calendar

open Ots Bitcoin

/-- What `gettransaction` tells of a transaction of the wallet. -/
structure WalletTransaction where
  confirmations : Int
  blockheight : Option UInt32

/-- The calls of bitcoind that the search makes. -/
structure BitcoinClient where
  getTransaction : Bytes32 → Result WalletTransaction
  getBlockHash : Nat → Result Bytes32
  getBlock : Bytes32 → Result Block
  getBlockCount : Result Nat

/-- The text of an id has its bytes in reverse. -/
def parseTxid (txid : String) : Option Bytes32 :=
  (Hex.decode txid).bind fun bytes => toArray32 bytes.reverse

/-- The block at a height of the best chain. -/
def blockAt (client : BitcoinClient) (height : Nat) : Result Block := do
  let blockHash ← (client.getBlockHash height).context "getblockhash failed"
  (client.getBlock blockHash).context "getblock failed"

variable [Digests]

/-- The transaction of the block with this id. -/
def findTx (block : Block) (txid : Bytes32) : Option Transaction :=
  block.txdata.find? fun tx => tx.computeTxid = txid

/-- The scan of the heights below this one, from the top. -/
def scanBlocks (client : BitcoinClient) (txid : Bytes32) :
    Nat → Result (Option (UInt32 × Block × Transaction))
  | 0 => .ok none
  | height + 1 => do
    let block ← blockAt client height
    match findTx block txid with
    | some tx => .ok (some (UInt32.ofNat height, block, tx))
    | none => scanBlocks client txid height

def findConfirmedTx (client : BitcoinClient) (txid : String) :
    Result (Option (UInt32 × Block × Transaction)) := do
  let txid ← Result.context (okOr (parseTxid txid) "invalid txid") "invalid pending anchor txid"
  match client.getTransaction txid with
  | .error _ => .ok none
  | .ok info =>
    if info.confirmations = 0 then
      .ok none
    else
      match info.blockheight with
      | some height => do
        let block ← blockAt client height.toNat
        let tx ← okOr (findTx block txid) "anchor tx missing from block"
        .ok (some (height, block, tx))
      | none => do
        let tip ← client.getBlockCount.context "getblockcount failed"
        scanBlocks client txid ((UInt32.ofNat tip).toNat + 1)

/-! ### What the search finds -/

theorem findTx_eq_some {block : Block} {txid : Bytes32} {tx : Transaction}
    (h : findTx block txid = some tx) : tx ∈ block.txdata ∧ tx.computeTxid = txid :=
  ⟨List.mem_of_find?_eq_some h, by simpa using List.find?_some h⟩

theorem scanBlocks_found {client : BitcoinClient} {txid : Bytes32} {bound : Nat} {height : UInt32}
    {block : Block} {tx : Transaction} (hbound : bound ≤ 2 ^ 32)
    (h : scanBlocks client txid bound = .ok (some (height, block, tx))) :
    blockAt client height.toNat = .ok block ∧ tx ∈ block.txdata ∧ tx.computeTxid = txid := by
  induction bound with
  | zero => cases h
  | succ bound ih =>
    obtain ⟨found, hfound, h⟩ := bind_eq_ok.mp h
    cases hfind : findTx found txid with
    | none =>
      simp only [hfind] at h
      exact ih (by omega) h
    | some tx =>
      simp only [hfind] at h
      cases h
      have hheight : (UInt32.ofNat bound).toNat = bound := UInt32.toNat_ofNat_of_lt' hbound
      rw [hheight]
      exact ⟨hfound, findTx_eq_some hfind⟩

/-- What is found stands, with the id that was searched, in the block at its height. -/
theorem findConfirmedTx_found {client : BitcoinClient} {txid : String} {height : UInt32}
    {block : Block} {tx : Transaction}
    (h : findConfirmedTx client txid = .ok (some (height, block, tx))) :
    blockAt client height.toNat = .ok block ∧ tx ∈ block.txdata ∧
      parseTxid txid = some tx.computeTxid := by
  obtain ⟨id, hid, h⟩ := bind_eq_ok.mp h
  rw [Result.context_eq_ok, okOr_eq_ok] at hid
  rw [hid]
  cases hinfo : client.getTransaction id with
  | error err => simp [hinfo] at h
  | ok info =>
    simp only [hinfo] at h
    split at h
    · cases h
    cases hheight : info.blockheight with
    | some found =>
      simp only [hheight] at h
      obtain ⟨block, hblock, h⟩ := bind_eq_ok.mp h
      obtain ⟨tx, htx, h⟩ := bind_eq_ok.mp h
      cases h
      obtain ⟨hmem, rfl⟩ := findTx_eq_some (okOr_eq_ok.mp htx)
      exact ⟨hblock, hmem, rfl⟩
    | none =>
      simp only [hheight] at h
      obtain ⟨tip, -, h⟩ := bind_eq_ok.mp h
      have htip := (UInt32.ofNat tip).toNat_lt
      obtain ⟨hblock, hmem, rfl⟩ := scanBlocks_found (by omega) h
      exact ⟨hblock, hmem, rfl⟩

end Lord.Calendar
