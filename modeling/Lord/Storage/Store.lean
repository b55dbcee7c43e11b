import Lord.Storage.Meta
import Lord.Storage.OtsOrder
import Mathlib

/-! The LMDB store: `COMMITMENT_META` by bao root and `COMMITMENT_ORDER` by encoded order key.  A
write transaction works on a copy of the two tables, which replaces them at the commit. -/

namespace Lord.Storage

/-- An LMDB table: rows in the byte order of their keys. -/
abbrev Table (α : Type) := Std.ExtTreeMap Bytes α compare

def maxOtsOrderPathLen : Nat := 254

/-- `checked_add(1)` on a byte. -/
def checkedSucc (byte : UInt8) : Option UInt8 :=
  if byte = 255 then none else some (byte + 1)

/-- Each path byte as its successor. -/
def encodePath : Bytes → Result Bytes
  | [] => .ok []
  | byte :: rest =>
    match checkedSucc byte with
    | none => .error "OTS order key byte out of range for LMDB encoding"
    | some next =>
      match encodePath rest with
      | .ok encoded => .ok (next :: encoded)
      | .error err => .error err

/-- LMDB rejects empty keys: each path byte is stored as its successor, then a zero byte; the
sentinel is stored raw. -/
def encodeOrderKeyForLmdb (key : Bytes) : Result Bytes :=
  if key = noAttestationSentinel then
    .ok noAttestationSentinel
  else if maxOtsOrderPathLen < key.length then
    .error s!"OTS order key path exceeds {maxOtsOrderPathLen} forks"
  else if key = [] then
    .ok [0]
  else
    match encodePath key with
    | .ok encoded => .ok (encoded ++ [0])
    | .error err => .error err

/-- The path bytes in front of the terminator. -/
def decodePath : Bytes → Result Bytes
  | [] => .ok []
  | byte :: rest =>
    if byte = 0 then
      .error "COMMITMENT_ORDER key contains invalid zero byte before terminator"
    else
      match decodePath rest with
      | .ok path => .ok ((byte - 1) :: path)
      | .error err => .error err

def decodeOrderKeyFromLmdb (encoded : Bytes) : Result Bytes :=
  if encoded = noAttestationSentinel then
    .ok noAttestationSentinel
  else if encoded = [0] then
    .ok []
  else
    match encoded.getLast? with
    | none => .error "COMMITMENT_ORDER key is empty"
    | some terminator =>
      if terminator ≠ 0 then
        .error "COMMITMENT_ORDER key missing terminator byte"
      else
        decodePath encoded.dropLast

theorem encodePath_eq_ok {path encoded : Bytes} :
    encodePath path = .ok encoded ↔ (∀ byte ∈ path, byte ≠ 255) ∧ encoded = path.map (· + 1) := by
  induction path generalizing encoded with
  | nil => simp [encodePath, eq_comm]
  | cons byte rest ih =>
    by_cases hbyte : byte = 255
    · simp [encodePath, checkedSucc, hbyte]
    · cases hrest : encodePath rest with
      | error err =>
        have hnot : ¬∀ b ∈ rest, b ≠ 255 := fun hall => by
          have hok := ih.mpr ⟨hall, rfl⟩
          rw [hrest] at hok
          cases hok
        simp only [encodePath, checkedSucc, hbyte, if_false, hrest, reduceCtorEq, false_iff]
        exact fun h => hnot fun b hb => h.1 b (List.mem_cons_of_mem _ hb)
      | ok restEncoded =>
        obtain ⟨hall, rfl⟩ := ih.mp hrest
        simp only [encodePath, checkedSucc, hbyte, if_false, hrest, Except.ok.injEq, List.map_cons,
          List.mem_cons, forall_eq_or_imp, ne_eq, not_false_eq_true, true_and]
        exact ⟨fun h => ⟨hall, h.symm⟩, fun h => h.2.symm⟩

/-- An encoded key is the raw sentinel, or the successors of the path bytes and a terminator. -/
theorem encodeOrderKeyForLmdb_eq_ok {key encoded : Bytes} :
    encodeOrderKeyForLmdb key = .ok encoded ↔
      key = noAttestationSentinel ∧ encoded = noAttestationSentinel ∨
      key ≠ noAttestationSentinel ∧ key.length ≤ maxOtsOrderPathLen ∧ (∀ byte ∈ key, byte ≠ 255) ∧
        encoded = key.map (· + 1) ++ [0] := by
  unfold encodeOrderKeyForLmdb
  by_cases hsentinel : key = noAttestationSentinel
  · simp [hsentinel, eq_comm]
  by_cases hlen : maxOtsOrderPathLen < key.length
  · simp [hsentinel, hlen]
  by_cases hnil : key = []
  · subst hnil
    simp only [hsentinel, hlen, if_false, if_true, Except.ok.injEq, false_and, false_or, ne_eq,
      not_false_eq_true, true_and]
    exact ⟨fun h => ⟨Nat.zero_le _, by simp, by simp [← h]⟩, fun h => by simp [h.2.2]⟩
  cases hpath : encodePath key with
  | error err =>
    have hnot : ¬∀ byte ∈ key, byte ≠ 255 := fun hall => by
      have hok := encodePath_eq_ok.mpr ⟨hall, rfl⟩
      rw [hpath] at hok
      cases hok
    simp only [hsentinel, hlen, hnil, if_false, reduceCtorEq, false_and, false_or,
      not_false_eq_true, ne_eq, true_and, false_iff]
    exact fun h => hnot h.2.1
  | ok path =>
    obtain ⟨hall, rfl⟩ := encodePath_eq_ok.mp hpath
    simp only [hsentinel, hlen, hnil, if_false, Except.ok.injEq, false_and, false_or,
      ne_eq, not_false_eq_true, true_and]
    exact ⟨fun h => ⟨by omega, hall, h.symm⟩, fun h => h.2.2.symm⟩

/-- Logical keys with the same encoding are equal. -/
theorem encodeOrderKeyForLmdb_injective {a b encoded : Bytes}
    (ha : encodeOrderKeyForLmdb a = .ok encoded) (hb : encodeOrderKeyForLmdb b = .ok encoded) :
    a = b := by
  have hterminator : ∀ path : Bytes, noAttestationSentinel ≠ path.map (· + 1) ++ [0] := by
    intro path h
    have hlast := congrArg List.getLast? h
    simp [noAttestationSentinel] at hlast
  rcases encodeOrderKeyForLmdb_eq_ok.mp ha with ⟨rfl, rfl⟩ | ⟨-, -, -, rfl⟩ <;>
    rcases encodeOrderKeyForLmdb_eq_ok.mp hb with ⟨rfl, h⟩ | ⟨-, -, -, h⟩
  · rfl
  · exact absurd h (hterminator b)
  · exact absurd h.symm (hterminator a)
  · have hmap : a.map (· + 1) = b.map (· + 1) := by simpa using h
    exact List.map_injective_iff.mpr (add_left_injective 1) hmap

theorem decodePath_map {path : Bytes} (h : ∀ byte ∈ path, byte ≠ 255) :
    decodePath (path.map (· + 1)) = .ok path := by
  induction path with
  | nil => rfl
  | cons byte rest ih =>
    have hbyte : byte + 1 ≠ 0 := by
      intro hzero
      have hmax : byte = 255 := by
        rw [← UInt8.add_sub_cancel byte 1, hzero]
        rfl
      exact h byte (by simp) hmax
    have hrest := ih fun b hb => h b (List.mem_cons_of_mem _ hb)
    simp [decodePath, hbyte, hrest]

/-- An encoded key reads back as its logical key. -/
theorem decodeOrderKey_encode {key encoded : Bytes} (h : encodeOrderKeyForLmdb key = .ok encoded) :
    decodeOrderKeyFromLmdb encoded = .ok key := by
  rcases encodeOrderKeyForLmdb_eq_ok.mp h with ⟨rfl, rfl⟩ | ⟨-, -, hbytes, rfl⟩
  · rfl
  · have hsentinel : key.map (· + 1) ++ [0] ≠ noAttestationSentinel := by
      intro heq
      have hlast := congrArg List.getLast? heq
      simp [noAttestationSentinel] at hlast
    unfold decodeOrderKeyFromLmdb
    rw [if_neg hsentinel]
    split
    · rename_i hempty
      have hnil : key = [] := by simpa using hempty
      rw [hnil]
    · simp [decodePath_map hbytes]

/-- The two tables.  A metadata row is stored under its own bao root. -/
structure StorageStore where
  commitmentMeta : Table CommitmentMeta
  commitmentOrder : Table Bytes32
  keyed : ∀ (key : Bytes) (row : CommitmentMeta), commitmentMeta[key]? = some row →
    row.baoRoot.val = key

namespace StorageStore

/-- A store without rows. -/
def empty : StorageStore where
  commitmentMeta := ∅
  commitmentOrder := ∅
  keyed := by simp

/-- Stores with the same rows are equal. -/
theorem ext {s t : StorageStore} (hmeta : s.commitmentMeta = t.commitmentMeta)
    (horder : s.commitmentOrder = t.commitmentOrder) : s = t := by
  cases s
  cases t
  cases hmeta
  cases horder
  rfl

def getCommitment (s : StorageStore) (baoRoot : Bytes32) : Option CommitmentMeta :=
  s.commitmentMeta[baoRoot.val]?

/-- The root stored under an encoded order key. -/
def orderRow (s : StorageStore) (encodedKey : Bytes) : Option Bytes32 :=
  s.commitmentOrder[encodedKey]?

def putCommitment (s : StorageStore) (row : CommitmentMeta) : StorageStore where
  commitmentMeta := s.commitmentMeta.insert row.baoRoot.val row
  commitmentOrder := s.commitmentOrder
  keyed := by
    intro key found h
    rw [Std.ExtTreeMap.getElem?_insert] at h
    split at h
    · rename_i heq
      cases h
      exact Std.LawfulEqOrd.eq_of_compare heq
    · exact s.keyed key found h

def putOrderRow (s : StorageStore) (encodedKey : Bytes) (baoRoot : Bytes32) : StorageStore where
  commitmentMeta := s.commitmentMeta
  commitmentOrder := s.commitmentOrder.insert encodedKey baoRoot
  keyed := s.keyed

def deleteOrderRow (s : StorageStore) (encodedKey : Bytes) : StorageStore where
  commitmentMeta := s.commitmentMeta
  commitmentOrder := s.commitmentOrder.erase encodedKey
  keyed := s.keyed

@[simp] theorem commitmentMeta_putOrderRow (s : StorageStore) (key : Bytes) (root : Bytes32) :
    (s.putOrderRow key root).commitmentMeta = s.commitmentMeta := rfl

@[simp] theorem commitmentMeta_deleteOrderRow (s : StorageStore) (key : Bytes) :
    (s.deleteOrderRow key).commitmentMeta = s.commitmentMeta := rfl

@[simp] theorem commitmentOrder_putCommitment (s : StorageStore) (row : CommitmentMeta) :
    (s.putCommitment row).commitmentOrder = s.commitmentOrder := rfl

@[simp] theorem getCommitment_putOrderRow (s : StorageStore) (key : Bytes) (root r : Bytes32) :
    (s.putOrderRow key root).getCommitment r = s.getCommitment r := rfl

@[simp] theorem getCommitment_deleteOrderRow (s : StorageStore) (key : Bytes) (r : Bytes32) :
    (s.deleteOrderRow key).getCommitment r = s.getCommitment r := rfl

@[simp] theorem orderRow_putCommitment (s : StorageStore) (row : CommitmentMeta) (key : Bytes) :
    (s.putCommitment row).orderRow key = s.orderRow key := rfl

theorem getCommitment_putCommitment (s : StorageStore) (row : CommitmentMeta) (r : Bytes32) :
    (s.putCommitment row).getCommitment r =
      if row.baoRoot = r then some row else s.getCommitment r := by
  simp only [getCommitment, putCommitment, Std.ExtTreeMap.getElem?_insert,
    Std.LawfulEqOrd.compare_eq_iff_eq, Subtype.ext_iff]

@[simp] theorem getCommitment_putCommitment_self (s : StorageStore) (row : CommitmentMeta) :
    (s.putCommitment row).getCommitment row.baoRoot = some row := by
  simp [getCommitment_putCommitment]

theorem orderRow_putOrderRow (s : StorageStore) (key : Bytes) (root : Bytes32) (k : Bytes) :
    (s.putOrderRow key root).orderRow k = if key = k then some root else s.orderRow k := by
  simp only [orderRow, putOrderRow, Std.ExtTreeMap.getElem?_insert,
    Std.LawfulEqOrd.compare_eq_iff_eq]

theorem orderRow_deleteOrderRow (s : StorageStore) (key k : Bytes) :
    (s.deleteOrderRow key).orderRow k = if key = k then none else s.orderRow k := by
  simp only [orderRow, deleteOrderRow, Std.ExtTreeMap.getElem?_erase,
    Std.LawfulEqOrd.compare_eq_iff_eq]

/-- A row found under a root names that root. -/
theorem baoRoot_of_getCommitment {s : StorageStore} {r : Bytes32} {row : CommitmentMeta}
    (h : s.getCommitment r = some row) : row.baoRoot = r :=
  Subtype.ext (s.keyed r.val row h)

/-- Stores that answer every lookup alike are equal. -/
theorem ext_lookup {s t : StorageStore} (hmeta : ∀ r, s.getCommitment r = t.getCommitment r)
    (horder : ∀ k, s.orderRow k = t.orderRow k) : s = t := by
  refine ext ?_ (Std.ExtTreeMap.ext_getElem? fun k => horder k)
  apply Std.ExtTreeMap.ext_getElem?
  intro key
  cases hs : s.commitmentMeta[key]? with
  | some row =>
    have hkey := s.keyed key row hs
    rw [← hkey] at hs ⊢
    exact hs.symm.trans (hmeta row.baoRoot)
  | none =>
    cases ht : t.commitmentMeta[key]? with
    | none => rfl
    | some row =>
      have hkey := t.keyed key row ht
      have hsame := hmeta row.baoRoot
      simp only [getCommitment, hkey, hs, ht] at hsame
      cases hsame

/-- Update the filepack fingerprint for a commitment. -/
def updateFilepackFp (s : StorageStore) (baoRoot : Bytes32) (fingerprint : String) :
    Result StorageStore :=
  match s.getCommitment baoRoot with
  | none => .error s!"missing CommitmentMeta for bao root {Hex.encode baoRoot.val}"
  | some row => .ok (s.putCommitment { row with filepackFp := some fingerprint })

def putCommitmentOrder (s : StorageStore) (orderKey : Bytes) (baoRoot : Bytes32) :
    Result StorageStore :=
  match encodeOrderKeyForLmdb orderKey with
  | .error err => .error err
  | .ok encodedKey =>
    match s.orderRow encodedKey with
    | some existing =>
      if existing ≠ baoRoot then
        .error (s!"COMMITMENT_ORDER key {Hex.encode orderKey} already maps to " ++
          Hex.encode existing.val)
      else
        .ok (s.putOrderRow encodedKey baoRoot)
    | none => .ok (s.putOrderRow encodedKey baoRoot)

def deleteCommitmentOrder (s : StorageStore) (orderKey : Bytes) : Result StorageStore :=
  match encodeOrderKeyForLmdb orderKey with
  | .error err => .error err
  | .ok encodedKey => .ok (s.deleteOrderRow encodedKey)

/-- The rows of `COMMITMENT_ORDER` in key order, with their keys decoded. -/
def listCommitmentsByOrder (s : StorageStore) : Result (List (Bytes × Bytes32)) :=
  s.commitmentOrder.toList.mapM fun (encodedKey, baoRoot) =>
    match Result.context (decodeOrderKeyFromLmdb encodedKey)
        "failed to decode COMMITMENT_ORDER key" with
    | .ok orderKey => .ok (orderKey, baoRoot)
    | .error err => .error err

end StorageStore

end Lord.Storage
