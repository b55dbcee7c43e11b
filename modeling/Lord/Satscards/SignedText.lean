import Lord.Lib.Sha256
import Lord.Satscards.Query

/-! What the signature of a card vouches for: the text up to the last equals sign of its query, so everything
but the value of the last parameter. -/

namespace Lord.Satscards

open Ots Split

/-! ### One parameter -/

variable {fields fields' : Fields} {key value : List Char} {p : Parameters}

theorem Fields.require_eq_ok : fields.require = .ok p ↔
    fields = ⟨some p.addressSuffix, some p.nonce, some p.signature, some p.slot, some p.state⟩ := by
  constructor
  · intro h
    obtain ⟨addressSuffix, hsuffix, h⟩ := bind_eq_ok.mp h
    obtain ⟨nonce, hnonce, h⟩ := bind_eq_ok.mp h
    obtain ⟨signature, hsignature, h⟩ := bind_eq_ok.mp h
    obtain ⟨slot, hslot, h⟩ := bind_eq_ok.mp h
    obtain ⟨state, hstate, h⟩ := bind_eq_ok.mp h
    cases h
    rw [okOr_eq_ok] at hsuffix hnonce hsignature hslot hstate
    rw [← hsuffix, ← hnonce, ← hsignature, ← hslot, ← hstate]
  · rintro rfl
    rfl

/-- What a parameter that is read sets. -/
theorem Fields.set_eq_ok : fields.set key value = .ok fields' ↔
    (String.ofList key = "u" ∧ ∃ state, readState value = .ok state ∧
      fields' = { fields with state := some state }) ∨
    (String.ofList key = "o" ∧ ∃ slot, readSlot value = .ok slot ∧
      fields' = { fields with slot := some slot }) ∨
    (String.ofList key = "r" ∧ fields' = { fields with addressSuffix := some value }) ∨
    (String.ofList key = "n" ∧ ∃ nonce, readNonce value = .ok nonce ∧
      fields' = { fields with nonce := some nonce }) ∨
    (String.ofList key = "s" ∧ ∃ signature, readSignature value = .ok signature ∧
      fields' = { fields with signature := some signature }) := by
  rw [Fields.set]
  split <;> rename_i hkey
  · simp [hkey, bind_eq_ok, pure, Except.pure, @eq_comm _ fields']
  · simp [hkey, bind_eq_ok, pure, Except.pure, @eq_comm _ fields']
  · simp [hkey, @eq_comm _ fields']
  · simp [hkey, bind_eq_ok, pure, Except.pure, @eq_comm _ fields']
  · simp [hkey, bind_eq_ok, pure, Except.pure, @eq_comm _ fields']
  · simp_all

theorem not_mem_of_readState {state : State} (h : readState value = .ok state) : '=' ∉ value := by
  have htext : String.ofList value = "S" ∨ String.ofList value = "E" ∨ String.ofList value = "U" := by
    rw [readState] at h
    split at h <;> simp_all
  rcases htext with htext | htext | htext <;>
  · rw [← String.toList_ofList (l := value), htext]
    decide

theorem not_mem_of_readSlot {slot : UInt8} (h : readSlot value = .ok slot) : '=' ∉ value := by
  rw [readSlot] at h
  split at h
  · rename_i slot' hparse
    obtain ⟨⟨digits, rfl | rfl, -, hdigits, -⟩, -⟩ := Decimal.parse_eq_ok.mp hparse
    · exact fun hmem => absurd (hdigits _ hmem) (by decide)
    · rw [List.mem_cons, not_or]
      exact ⟨by decide, fun hmem => absurd (hdigits _ hmem) (by decide)⟩
  · cases h

theorem not_mem_of_readNonce {nonce : Bytes8} (h : readNonce value = .ok nonce) : '=' ∉ value := by
  rw [readNonce] at h
  split at h
  · cases h
  · rename_i bytes hhex
    exact Hex.not_mem_of_fromHex hhex (by decide)

theorem not_mem_of_readSignature {signature : Signature} (h : readSignature value = .ok signature) :
    '=' ∉ value := by
  rw [readSignature] at h
  split at h
  · cases h
  · rename_i bytes hhex
    exact Hex.not_mem_of_fromHex hhex (by decide)

/-- No value that is read has an equals sign, but an address suffix may. -/
theorem not_mem_of_set (h : fields.set key value = .ok fields')
    (hsuffix : fields'.addressSuffix = some value → '=' ∉ value) : '=' ∉ value := by
  rcases Fields.set_eq_ok.mp h with ⟨-, state, hread, -⟩ | ⟨-, slot, hread, -⟩ | ⟨-, rfl⟩ |
    ⟨-, nonce, hread, -⟩ | ⟨-, signature, hread, -⟩
  · exact not_mem_of_readState hread
  · exact not_mem_of_readSlot hread
  · exact hsuffix rfl
  · exact not_mem_of_readNonce hread
  · exact not_mem_of_readSignature hread

/-- There is another state, slot and nonce to be read. -/
theorem exists_readState (state : State) :
    ∃ value other, readState value = .ok other ∧ other ≠ state ∧ '=' ∉ value ∧ '&' ∉ value := by
  by_cases h : state = .sealed
  · exact ⟨['U'], .unsealed, rfl, by simp [h], by decide, by decide⟩
  · exact ⟨['S'], .sealed, rfl, Ne.symm h, by decide, by decide⟩

theorem exists_readSlot (slot : UInt8) :
    ∃ value other, readSlot value = .ok other ∧ other ≠ slot ∧ '=' ∉ value ∧ '&' ∉ value := by
  by_cases h : slot = 0
  · exact ⟨['1'], 1, rfl, by simp [h], by decide, by decide⟩
  · exact ⟨['0'], 0, rfl, Ne.symm h, by decide, by decide⟩

theorem exists_readNonce (nonce : Bytes8) :
    ∃ value other, readNonce value = .ok other ∧ other ≠ nonce ∧ '=' ∉ value ∧ '&' ∉ value := by
  by_cases h : nonce = ⟨List.replicate 8 0, rfl⟩
  · exact ⟨List.replicate 16 '1', ⟨List.replicate 8 0x11, rfl⟩, by decide, by rw [h]; decide,
      by decide, by decide⟩
  · exact ⟨List.replicate 16 '0', ⟨List.replicate 8 0, rfl⟩, by decide, Ne.symm h, by decide, by decide⟩

/-! ### The last parameter -/

/-- The key of the last parameter. -/
def lastKey (query : List Char) : Option (List Char) :=
  (query.splitOn '&').getLast?.bind fun parameter => (splitOnce '=' parameter).map Prod.fst

theorem readParameter_eq_ok {read read' : List (List Char) × Fields} {parameter : List Char} :
    readParameter read parameter = .ok read' ↔
      ∃ key value, splitOnce '=' parameter = some (key, value) ∧ key ∉ read.1 ∧
        ∃ fields, read.2.set key value = .ok fields ∧ read' = (key :: read.1, fields) := by
  rw [readParameter, bind_eq_ok]
  simp only [okOr_eq_ok, Prod.exists]
  refine exists_congr fun key => exists_congr fun value => and_congr_right fun _ => ?_
  split
  · simp [*]
  · simp [*, bind_eq_ok, pure, Except.pure, @eq_comm _ read']

/-- Every parameter of a query that is read has a value. -/
theorem mem_of_foldlM {parameters : List (List Char)} {read read' : List (List Char) × Fields}
    (h : parameters.foldlM readParameter read = .ok read') :
    ∀ parameter ∈ parameters, '=' ∈ parameter := by
  induction parameters generalizing read with
  | nil => simp
  | cons first rest ih =>
    rw [List.foldlM_cons] at h
    obtain ⟨next, hfirst, hrest⟩ := bind_eq_ok.mp h
    obtain ⟨key, value, hparts, -⟩ := readParameter_eq_ok.mp hfirst
    obtain ⟨rfl, -⟩ := splitOnce_eq_some.mp hparts
    exact List.forall_mem_cons.mpr ⟨by simp, ih hrest⟩

/-- A query that is read has a text that is signed, and a last value. -/
theorem exists_signedMessage {query : List Char} (h : readParameters query = .ok p) :
    ∃ start value, query = start ++ '=' :: value ∧ '=' ∉ value ∧ '&' ∉ value ∧
      signedMessage query = some (start ++ ['=']) := by
  obtain ⟨read, hread, -⟩ := bind_eq_ok.mp h
  have hall := mem_of_foldlM hread
  cases hmessage : signedMessage query with
  | none =>
    have hnone := upToLast_eq_none.mp hmessage
    obtain ⟨pieces, last, hsuffix, hpieces⟩ := splitOn_append '&' query
    have hsplit := hpieces [] (by simp)
    rw [List.append_nil, List.append_nil] at hsplit
    have hlast : '=' ∈ last := hall last (by simp [hsplit])
    exact absurd (hsuffix.mem hlast) hnone
  | some message =>
    obtain ⟨start, value, rfl, rfl, hvalue⟩ := upToLast_eq_some.mp hmessage
    exact ⟨start, value, rfl, hvalue, not_mem_of_pieces hall hvalue, rfl⟩

/-- The last value is read by a key and onto fields that do not depend on it. -/
theorem readParameters_last (start : List Char) : ∃ key tail, (tail = [] ∨ '=' ∈ tail) ∧
    ∃ front : Except Error (List (List Char) × Fields), ∀ value, '&' ∉ value →
      lastKey (start ++ '=' :: value) = some key ∧
      ∀ p, readParameters (start ++ '=' :: value) = .ok p ↔ ∃ read, front = .ok read ∧
        key ∉ read.1 ∧
        ∃ fields, read.2.set key (tail ++ value) = .ok fields ∧ fields.require = .ok p := by
  obtain ⟨pieces, last, -, hpieces⟩ := splitOn_append '&' start
  obtain ⟨key, tail, htail, hlast⟩ := splitOnce_behind '=' last
  refine ⟨key, tail, htail, pieces.foldlM readParameter ([], ⟨none, none, none, none, none⟩),
    fun value hvalue => ?_⟩
  have hsplit := hpieces ('=' :: value) (by simp [hvalue])
  refine ⟨by simp [lastKey, hsplit, hlast], fun p => ?_⟩
  simp only [readParameters, hsplit, List.foldlM_append, List.foldlM_cons, List.foldlM_nil, bind_eq_ok,
    readParameter_eq_ok, hlast]
  constructor
  · rintro ⟨_, ⟨read, hread, _, ⟨key', value', hparts, hkey, fields, hset, rfl⟩, hend⟩, hp⟩
    cases hparts
    cases hend
    exact ⟨read, hread, hkey, fields, hset, hp⟩
  · rintro ⟨read, hread, hkey, fields, hset, hp⟩
    exact ⟨_, ⟨read, hread, _, ⟨key, _, rfl, hkey, fields, hset, rfl⟩, rfl⟩, hp⟩

/-- Two queries that sign the same text and end with the signature have the other parameters in common. -/
theorem eq_of_last {start value value' : List Char} {p p' : Parameters} (hamp : '&' ∉ value)
    (hamp' : '&' ∉ value') (hlast : lastKey (start ++ '=' :: value) = some ['s'])
    (hread : readParameters (start ++ '=' :: value) = .ok p)
    (hread' : readParameters (start ++ '=' :: value') = .ok p') :
    p.state = p'.state ∧ p.slot = p'.slot ∧ p.nonce = p'.nonce ∧
      p.addressSuffix = p'.addressSuffix := by
  obtain ⟨last, tail, -, front, hfront⟩ := readParameters_last start
  obtain ⟨hlastKey, hreads⟩ := hfront value hamp
  obtain rfl : last = ['s'] := Option.some.inj (hlastKey.symm.trans hlast)
  have hsignature : ∀ (text : List Char) (p : Parameters) (read : List (List Char) × Fields),
      (∃ fields, read.2.set ['s'] text = .ok fields ∧ fields.require = .ok p) →
        read.2.state = some p.state ∧ read.2.slot = some p.slot ∧ read.2.nonce = some p.nonce ∧
          read.2.addressSuffix = some p.addressSuffix := by
    rintro text p read ⟨fields, hset, hrequire⟩
    rw [Fields.require_eq_ok] at hrequire
    subst hrequire
    rcases Fields.set_eq_ok.mp hset with ⟨hkey, -⟩ | ⟨hkey, -⟩ | ⟨hkey, -⟩ | ⟨hkey, -⟩ |
      ⟨-, signature, -, heq⟩
    · exact absurd hkey (by decide)
    · exact absurd hkey (by decide)
    · exact absurd hkey (by decide)
    · exact absurd hkey (by decide)
    · exact ⟨(congrArg Fields.state heq).symm, (congrArg Fields.slot heq).symm,
        (congrArg Fields.nonce heq).symm, (congrArg Fields.addressSuffix heq).symm⟩
  obtain ⟨read, hok, -, hfields⟩ := (hreads p).mp hread
  obtain ⟨read', hok', -, hfields'⟩ := ((hfront value' hamp').2 p').mp hread'
  obtain rfl : read = read' := Except.ok.inj (hok.symm.trans hok')
  obtain ⟨hstate, hslot, hnonce, hsuffix⟩ := hsignature _ p read hfields
  obtain ⟨hstate', hslot', hnonce', hsuffix'⟩ := hsignature _ p' read hfields'
  exact ⟨Option.some.inj (hstate.symm.trans hstate'), Option.some.inj (hslot.symm.trans hslot'),
    Option.some.inj (hnonce.symm.trans hnonce'), Option.some.inj (hsuffix.symm.trans hsuffix')⟩

/-! ### The recovered keys -/

section

variable [Digests] [Secp256k1] {chain : Chain} {signature : Signature} {message : List Char}
  {addressSuffix : List Char}

/-- The keys that are recovered from a signature of the message. -/
def recovered (signature : Signature) (message : List Char) : List PublicKey :=
  [0, 1, 2, 3].filterMap fun id => Secp256k1.recover ⟨signature, id⟩ (digest message)

/-- The address of a key ends with the suffix. -/
def Names (addressSuffix : List Char) (chain : Chain) (key : PublicKey) : Prop :=
  addressSuffix <:+ (Address.p2wpkh key chain.bech32Hrp).text.toList

instance (key : PublicKey) : Decidable (Names addressSuffix chain key) :=
  inferInstanceAs (Decidable (_ <:+ _))

theorem searchAddress_cons (bytes : Bytes) (id : Fin 4) (rest : List (Fin 4)) :
    searchAddress addressSuffix chain bytes signature (id :: rest) =
      match Secp256k1.recover ⟨signature, id⟩ bytes with
      | none => searchAddress addressSuffix chain bytes signature rest
      | some key =>
        if Secp256k1.verify signature bytes key then
          if Names addressSuffix chain key then .ok (Address.p2wpkh key chain.bech32Hrp)
          else searchAddress addressSuffix chain bytes signature rest
        else .error (.panic "called `Result::unwrap()` on an `Err` value: IncorrectSignature") := by
  simp only [searchAddress, RecoverableSignature.fromCompact, Signature.fromCompact_serializeCompact,
    Option.map_some, TransactionKey.new, TransactionKey.toCompressed, if_true, Names]
  rfl

/-- Under a signature in the upper half, the search panics at the first key. -/
theorem searchAddress_high (h : signature.High) (bytes : Bytes) (ids : List (Fin 4)) :
    searchAddress addressSuffix chain bytes signature ids =
      if (ids.filterMap fun id => Secp256k1.recover ⟨signature, id⟩ bytes) = [] then
        .error (.err .addressRecovery)
      else .error (.panic "called `Result::unwrap()` on an `Err` value: IncorrectSignature") := by
  induction ids with
  | nil => rfl
  | cons id rest ih =>
    rw [searchAddress_cons, List.filterMap_cons]
    cases hkey : Secp256k1.recover ⟨signature, id⟩ bytes with
    | none => exact ih
    | some key =>
      have hverify : Secp256k1.verify signature bytes key = false := by
        cases hv : Secp256k1.verify signature bytes key with
        | false => rfl
        | true => exact absurd h (Secp256k1.not_high_of_verify _ _ _ hv)
      simp [hverify]

/-- Under a signature in the lower half, it takes the first address that the suffix names. -/
theorem searchAddress_low (h : ¬signature.High) (bytes : Bytes) (ids : List (Fin 4)) :
    searchAddress addressSuffix chain bytes signature ids =
      okOr (((ids.filterMap fun id => Secp256k1.recover ⟨signature, id⟩ bytes).find?
        (Names addressSuffix chain)).map (Address.p2wpkh · chain.bech32Hrp)) (.err .addressRecovery) := by
  induction ids with
  | nil => rfl
  | cons id rest ih =>
    rw [searchAddress_cons, List.filterMap_cons]
    cases hkey : Secp256k1.recover ⟨signature, id⟩ bytes with
    | none => exact ih
    | some key =>
      have hverify := Secp256k1.verify_recovered ⟨signature, id⟩ bytes key hkey h
      dsimp only at hverify ⊢
      rw [if_pos hverify, List.find?_cons]
      by_cases hnames : Names addressSuffix chain key
      · simp [hnames, okOr]
      · simp [hnames, ih]

theorem recoverAddress_panics (addressSuffix : List Char) (chain : Chain) :
    (∃ text, recoverAddress addressSuffix chain message signature = .error (.panic text)) ↔
      signature.High ∧ recovered signature message ≠ [] := by
  rw [recoverAddress, recovered]
  by_cases h : signature.High
  · rw [searchAddress_high h]
    split <;> simp [*]
  · rw [searchAddress_low h]
    refine iff_of_false ?_ fun hhigh => h hhigh.1
    rintro ⟨text, htext⟩
    generalize Option.map _ _ = address at htext
    cases address <;> cases htext

theorem recoverAddress_accepts (h : ¬signature.High) :
    (∃ address, recoverAddress addressSuffix chain message signature = .ok address) ↔
      ∃ key ∈ recovered signature message, Names addressSuffix chain key := by
  rw [recoverAddress, recovered, searchAddress_low h]
  simp only [okOr_eq_ok, Option.map_eq_some_iff]
  constructor
  · rintro ⟨address, key, hkey, -⟩
    exact ⟨key, List.mem_of_find?_eq_some hkey, by simpa using List.find?_some hkey⟩
  · rintro ⟨key, hmem, hnames⟩
    have hfound : (List.find? (Names addressSuffix chain) _).isSome :=
      List.find?_isSome.mpr ⟨key, hmem, by simpa using hnames⟩
    obtain ⟨first, hfirst⟩ := Option.isSome_iff_exists.mp hfound
    exact ⟨_, first, hfirst, rfl⟩

/-! ### The query as a whole -/

/-- The parser returns a card, from these parameters. -/
def Accepted (chain : Chain) (query : String) (p : Parameters) : Prop :=
  readParameters query.toList = .ok p ∧ ∃ card, fromQueryParameters chain query = .ok card

/-- The query does not crash the parser, and no other one with the same signature of the same text is
accepted with other parameters. -/
def Authenticated (chain : Chain) (query : String) : Prop :=
  (∀ text, fromQueryParameters chain query ≠ .error (.panic text)) ∧
  ∀ other p p', Accepted chain query p → Accepted chain other p' → p.signature = p'.signature →
    signedMessage query.toList = signedMessage other.toList →
    p.state = p'.state ∧ p.slot = p'.slot ∧ p.nonce = p'.nonce ∧ p.addressSuffix = p'.addressSuffix

/-- A query that is read has no key that is recovered from a signature in the upper half, and has its
signature last unless it names none of the addresses. -/
def SignedWhole (chain : Chain) (query : String) : Prop :=
  ∀ p message, readParameters query.toList = .ok p → signedMessage query.toList = some message →
    (p.signature.High → recovered p.signature message = []) ∧
    (lastKey query.toList = some ['s'] ∨
      ∀ key ∈ recovered p.signature message, ¬Names p.addressSuffix chain key)

theorem fromQueryParameters_eq {query : String} {p : Parameters} (h : readParameters query.toList = .ok p)
    (hmessage : signedMessage query.toList = some message) : fromQueryParameters chain query =
      (recoverAddress p.addressSuffix chain message p.signature).map
        fun address => ⟨address, p.nonce, query, p.slot, p.state⟩ := by
  rw [fromQueryParameters, h]
  dsimp only
  rw [hmessage]
  dsimp only
  cases recoverAddress p.addressSuffix chain message p.signature <;> rfl

theorem fromQueryParameters_panics (chain : Chain) {query : String} {p : Parameters}
    (h : readParameters query.toList = .ok p) (hmessage : signedMessage query.toList = some message) :
    (∃ text, fromQueryParameters chain query = .error (.panic text)) ↔
      p.signature.High ∧ recovered p.signature message ≠ [] := by
  rw [fromQueryParameters_eq h hmessage, ← recoverAddress_panics p.addressSuffix chain]
  cases recoverAddress p.addressSuffix chain message p.signature <;> simp [Except.map]

/-- The page crashes exactly at a query that is read and has a key that is recovered from a signature in the
upper half. -/
theorem satscard_panics {Info : Type} (addressInfo : Address → Result (Option Info)) (form : Option Url)
    (query : Option String) : (∃ text, satscard chain addressInfo form query = .error (.panic text)) ↔
      form = none ∧ ∃ text p message, query = some text ∧ readParameters text.toList = .ok p ∧
        signedMessage text.toList = some message ∧ p.signature.High ∧
        recovered p.signature message ≠ [] := by
  cases form with
  | some url =>
    obtain ⟨fragment, query'⟩ := url
    cases fragment <;> cases query' <;> simp [satscard]
  | none =>
    cases query with
    | none => simp [satscard]
    | some text =>
      by_cases hempty : text = ""
      · have hnone : readParameters [] = .error (.parameterValueMissing "") := rfl
        simp [satscard, Option.filter_some, hempty, hnone]
      have hpanics : (∃ message, satscard chain addressInfo none (some text) = .error (.panic message)) ↔
          ∃ message, fromQueryParameters chain text = .error (.panic message) := by
        simp only [satscard, Option.filter_some, hempty, decide_true, ne_eq, not_false_eq_true, if_true]
        cases fromQueryParameters chain text with
        | error stop => cases stop <;> simp
        | ok card => cases hinfo : addressInfo card.address <;> simp [hinfo]
      rw [hpanics, and_iff_right rfl]
      constructor
      · rintro ⟨message, hpanic⟩
        cases hread : readParameters text.toList with
        | error err => simp [fromQueryParameters, hread] at hpanic
        | ok p =>
          obtain ⟨start, value, -, -, -, hmessage⟩ := exists_signedMessage hread
          exact ⟨text, p, _, rfl, hread, hmessage,
            (fromQueryParameters_panics chain hread hmessage).mp ⟨message, hpanic⟩⟩
      · rintro ⟨_, p, message, heq, hread, hmessage, hcrash⟩
        cases heq
        exact (fromQueryParameters_panics chain hread hmessage).mpr hcrash

theorem accepted_iff {query : String} {p : Parameters} (h : readParameters query.toList = .ok p)
    (hmessage : signedMessage query.toList = some message) (hlow : ¬p.signature.High) :
    Accepted chain query p ↔
      ∃ key ∈ recovered p.signature message, Names p.addressSuffix chain key := by
  rw [Accepted, fromQueryParameters_eq h hmessage, ← recoverAddress_accepts hlow, and_iff_right h]
  cases recoverAddress p.addressSuffix chain message p.signature <;> simp [Except.map]

/-- A query with another last value that is read, under a key other than the signature's, is accepted beside
it when its suffix names a recovered key. -/
theorem not_authenticated_of_other {start value other : List Char} {p p' : Parameters}
    (hvalue : '=' ∉ value) (hother : '=' ∉ other) {query : String}
    (hquery : query.toList = start ++ '=' :: value)
    (hread : readParameters (start ++ '=' :: value) = .ok p)
    (hread' : readParameters (start ++ '=' :: other) = .ok p') (hlow : ¬p.signature.High)
    (hsignature : p.signature = p'.signature)
    (hnames : ∃ key ∈ recovered p.signature (start ++ ['=']), Names p.addressSuffix chain key)
    (hnames' : ∃ key ∈ recovered p.signature (start ++ ['=']), Names p'.addressSuffix chain key)
    (hdiffer : ¬(p.state = p'.state ∧ p.slot = p'.slot ∧ p.nonce = p'.nonce ∧
      p.addressSuffix = p'.addressSuffix)) : ¬Authenticated chain query := by
  rintro ⟨-, hall⟩
  have hmessage : signedMessage query.toList = some (start ++ ['=']) := by
    rw [hquery]
    exact upToLast_append hvalue
  have htext : (String.ofList (start ++ '=' :: other)).toList = start ++ '=' :: other :=
    String.toList_ofList
  have hmessage' : signedMessage (String.ofList (start ++ '=' :: other)).toList =
      some (start ++ ['=']) := by
    rw [htext]
    exact upToLast_append hother
  refine hdiffer (hall (String.ofList (start ++ '=' :: other)) p p' ?_ ?_ hsignature ?_)
  · rw [← hquery] at hread
    exact (accepted_iff hread hmessage hlow).mpr hnames
  · rw [← htext] at hread'
    rw [hsignature] at hlow hnames'
    exact (accepted_iff hread' hmessage' hlow).mpr hnames'
  · rw [hmessage, hmessage']

omit [Secp256k1] in
/-- Another suffix of an address: the empty one, or the last character. -/
theorem exists_suffix (addressSuffix : List Char) (chain : Chain) (key : PublicKey) :
    ∃ other, Names other chain key ∧ other ≠ addressSuffix ∧ '=' ∉ other ∧ '&' ∉ other := by
  by_cases hempty : addressSuffix = []
  · have hne := Address.text_ne_nil (Address.p2wpkh key chain.bech32Hrp)
    have hlast := Address.mem_text (List.getLast_mem hne)
    refine ⟨[List.getLast _ hne], ⟨_, List.dropLast_append_getLast hne⟩, by simp [hempty], ?_, ?_⟩
    · rw [List.mem_singleton]
      exact fun heq => absurd (heq ▸ hlast) (by decide)
    · rw [List.mem_singleton]
      exact fun heq => absurd (heq ▸ hlast) (by decide)
  · exact ⟨[], List.nil_suffix, Ne.symm hempty, by simp, by simp⟩

omit [Secp256k1] in
theorem not_mem_of_names {key : PublicKey} (h : Names addressSuffix chain key) : '=' ∉ addressSuffix :=
  fun hmem => absurd (Address.mem_text (h.mem hmem)) (by decide)

/-- Beside an accepted query whose last parameter is not the signature there is another one. -/
theorem not_authenticated_of_last {query : String} {p : Parameters} {key : PublicKey}
    (hread : readParameters query.toList = .ok p) (hmessage : signedMessage query.toList = some message)
    (hlow : ¬p.signature.High) (hkey : key ∈ recovered p.signature message)
    (hnames : Names p.addressSuffix chain key) (hlast : lastKey query.toList ≠ some ['s']) :
    ¬Authenticated chain query := by
  obtain ⟨start, value, hquery, hvalue, hamp, hsigned⟩ := exists_signedMessage hread
  rw [hmessage] at hsigned
  cases hsigned
  rw [hquery] at hread hlast
  obtain ⟨last, tail, htail, front, hfront⟩ := readParameters_last start
  obtain ⟨hlastKey, hreads⟩ := hfront value hamp
  obtain ⟨read, hok, hnew, fields, hset, hrequire⟩ := (hreads p).mp hread
  rw [Fields.require_eq_ok] at hrequire
  subst hrequire
  obtain rfl : tail = [] := by
    have hnone := not_mem_of_set hset fun heq => by
      rw [← Option.some.inj heq]
      exact not_mem_of_names hnames
    exact htail.resolve_right fun hmem => hnone (List.mem_append_left _ hmem)
  -- Another value of the last parameter is read onto the same fields.
  have hother : ∀ (other : List Char) (p' : Parameters), '&' ∉ other →
      read.2.set last other = .ok ⟨some p'.addressSuffix, some p'.nonce, some p'.signature, some p'.slot,
        some p'.state⟩ → readParameters (start ++ '=' :: other) = .ok p' := fun other p' hamp' hset' =>
    ((hfront other hamp').2 p').mpr ⟨read, hok, hnew, _, hset', Fields.require_eq_ok.mpr rfl⟩
  rcases Fields.set_eq_ok.mp hset with ⟨hu, state, -, heq⟩ | ⟨ho, slot, -, heq⟩ | ⟨hr, heq⟩ |
    ⟨hn, nonce, -, heq⟩ | ⟨hs, -⟩
  · obtain ⟨text, state', hreadState, hne, heq', hamp'⟩ := exists_readState p.state
    refine not_authenticated_of_other hvalue heq' hquery hread
      (hother text { p with state := state' } hamp'
        (Fields.set_eq_ok.mpr (.inl ⟨hu, state', hreadState, ?_⟩))) hlow rfl
      ⟨key, hkey, hnames⟩ ⟨key, hkey, hnames⟩ fun hall => hne hall.1.symm
    simp_all
  · obtain ⟨text, slot', hreadSlot, hne, heq', hamp'⟩ := exists_readSlot p.slot
    refine not_authenticated_of_other hvalue heq' hquery hread
      (hother text { p with slot := slot' } hamp'
        (Fields.set_eq_ok.mpr (.inr (.inl ⟨ho, slot', hreadSlot, ?_⟩)))) hlow rfl
      ⟨key, hkey, hnames⟩ ⟨key, hkey, hnames⟩ fun hall => hne hall.2.1.symm
    simp_all
  · obtain ⟨suffix, hnames', hne, heq', hamp'⟩ := exists_suffix p.addressSuffix chain key
    refine not_authenticated_of_other hvalue heq' hquery hread
      (hother suffix { p with addressSuffix := suffix } hamp'
        (Fields.set_eq_ok.mpr (.inr (.inr (.inl ⟨hr, ?_⟩))))) hlow rfl
      ⟨key, hkey, hnames⟩ ⟨key, hkey, hnames'⟩ fun hall => hne hall.2.2.2.symm
    simp_all
  · obtain ⟨text, nonce', hreadNonce, hne, heq', hamp'⟩ := exists_readNonce p.nonce
    refine not_authenticated_of_other hvalue heq' hquery hread
      (hother text { p with nonce := nonce' } hamp'
        (Fields.set_eq_ok.mpr (.inr (.inr (.inr (.inl ⟨hn, nonce', hreadNonce, ?_⟩)))))) hlow rfl
      ⟨key, hkey, hnames⟩ ⟨key, hkey, hnames⟩ fun hall => hne hall.2.2.1.symm
    simp_all
  · refine absurd ?_ hlast
    rw [hlastKey, ← String.toList_ofList (l := last), hs]
    rfl

theorem names_of_accepted {query : String} {p : Parameters} (h : Accepted chain query p)
    (hmessage : signedMessage query.toList = some message) :
    ∃ key ∈ recovered p.signature message, Names p.addressSuffix chain key := by
  by_cases hlow : p.signature.High
  · obtain ⟨hread, card, hcard⟩ := h
    rw [fromQueryParameters_eq hread hmessage, recoverAddress, searchAddress_high hlow] at hcard
    split at hcard <;> cases hcard
  · exact (accepted_iff h.1 hmessage hlow).mp h

/-- A query is authenticated exactly when, if its parameters are read, no key is recovered from a signature
in the upper half, and the signature is the last parameter or its suffix names no recovered key. -/
theorem authenticated_iff (chain : Chain) (query : String) :
    Authenticated chain query ↔ SignedWhole chain query := by
  constructor
  · intro h p message hread hmessage
    have hhigh : p.signature.High → recovered p.signature message = [] := by
      intro hhigh
      by_contra hne
      obtain ⟨text, htext⟩ := (fromQueryParameters_panics chain hread hmessage).mpr ⟨hhigh, hne⟩
      exact h.1 text htext
    refine ⟨hhigh, ?_⟩
    by_contra hnone
    push Not at hnone
    obtain ⟨hlast, key, hkey, hnames⟩ := hnone
    have hlow : ¬p.signature.High := fun h => by simp [hhigh h] at hkey
    exact not_authenticated_of_last hread hmessage hlow hkey hnames hlast h
  · refine fun h => ⟨fun text htext => ?_, fun other p p' haccepted haccepted' hsignature hmessage => ?_⟩
    · cases hread : readParameters query.toList with
      | error err => simp [fromQueryParameters, hread] at htext
      | ok p =>
        obtain ⟨start, value, -, -, -, hmessage⟩ := exists_signedMessage hread
        obtain ⟨hhigh, hne⟩ := (fromQueryParameters_panics chain hread hmessage).mp ⟨text, htext⟩
        exact hne ((h p _ hread hmessage).1 hhigh)
    · obtain ⟨start, value, hquery, hvalue, hamp, hsigned⟩ := exists_signedMessage haccepted.1
      obtain ⟨start', value', hother, hvalue', hamp', hsigned'⟩ := exists_signedMessage haccepted'.1
      rw [hsigned, hsigned'] at hmessage
      obtain rfl : start = start' := (List.append_inj' (Option.some.inj hmessage) rfl).1
      obtain hlast | hnone := (h p _ haccepted.1 hsigned).2
      · have hread := haccepted.1
        have hread' := haccepted'.1
        rw [hquery] at hlast hread
        rw [hother] at hread'
        exact eq_of_last hamp hamp' hlast hread hread'
      · obtain ⟨key, hkey, hnames⟩ := names_of_accepted haccepted hsigned
        exact absurd hnames (hnone key hkey)

end

/-! ### A signature and its two halves -/

/-- The signature of the link that the tests of the parser read. -/
def linkSignature : Signature :=
  ⟨⟨0xf1aab250cc6130e2937802a76bca3b03e8bebc33ba9cb77d72d5d9a0f0029fc7, by decide⟩,
    ⟨0x0f32f39b6ec52e2c275833aec27986257f18811487a54047d953b412a7836fb1, by decide⟩⟩

/-- The same with the second number negated. -/
def negatedSignature : Signature :=
  ⟨linkSignature.r, ⟨0xf0cd0c64913ad1d3d8a7cc513d8679d93b965bd227a35ff3e67eaa7a28b2d190, by decide⟩⟩

def linkQuery (signature : Signature) : String :=
  "u=S&o=0&r=4w9rytlk&n=b37ccaa62aa849e7&s=" ++ Hex.encode signature.serializeCompact

/-- A query with its state behind the signature. -/
def stateLastQuery (state : String) : String :=
  "s=" ++ Hex.encode linkSignature.serializeCompact ++ "&o=0&r=&n=b37ccaa62aa849e7&u=" ++ state

theorem toList_encode (signature : Signature) :
    (Hex.encode signature.serializeCompact).toList = Hex.digits signature.serializeCompact :=
  String.toList_ofList

theorem toList_linkQuery (signature : Signature) : (linkQuery signature).toList =
    "u=S&o=0&r=4w9rytlk&n=b37ccaa62aa849e7&s=".toList ++ Hex.digits signature.serializeCompact := by
  rw [← toList_encode]
  exact String.toList_append

theorem toList_stateLastQuery (state : String) : (stateLastQuery state).toList = "s=".toList ++
    Hex.digits linkSignature.serializeCompact ++ "&o=0&r=&n=b37ccaa62aa849e7&u=".toList ++
      state.toList := by
  simp only [stateLastQuery, toList_encode, String.toList_append]

def stateLastParameters (state : State) : Parameters :=
  ⟨[], ⟨[0xb3, 0x7c, 0xca, 0xa6, 0x2a, 0xa8, 0x49, 0xe7], rfl⟩, linkSignature, 0, state⟩

/-- The card of a query that ends with its state. -/
def stateLastCard (text : String) (state : State) : Satscard :=
  ⟨⟨.mainnet, (LittleEndian.encode 20 0xf7c18c5b889218d5284e0cf9e4f1018ec1857b16).reverse⟩,
    (stateLastParameters state).nonce, stateLastQuery text, 0, state⟩

def keyOf (parity : UInt8) (x : Nat) : PublicKey := ⟨parity :: toBigEndian x, by simp [toBigEndian]⟩

/-- The keys that are recovered from the two signatures of the link, and from the first one of the query that
ends with its state. -/
def recoveredKeys : List (RecoverableSignature × Nat × PublicKey) :=
  let link := 0x7ee2ac914c8f99b7d02a7e339f3aa43a71f06c45ccb64bef9492fcb660289a45
  let stateLast := 0x1af641df7420531f9abfd972fc1a759960d0aff4eee9fb83b075b95896d169aa
  let odd := keyOf 3 0xf32367b2463176f3ede81ff98ba0c28167081b2752f99fe585b85a0647a6effa
  let other := keyOf 3 0x50f1f375d8335e9542d9d9800508fd6bc77408d436c65e884c572433993c8c79
  [(⟨linkSignature, 0⟩, link, odd), (⟨linkSignature, 1⟩, link, other),
    (⟨negatedSignature, 0⟩, link, other), (⟨negatedSignature, 1⟩, link, odd),
    (⟨linkSignature, 0⟩, stateLast,
      keyOf 2 0x621b1f8d11f52aa6b9ca27ad848209d03a5118513ed59c9ec2e00b6a48843596),
    (⟨linkSignature, 1⟩, stateLast,
      keyOf 2 0xbc9219730f3d242eed456456eade8b634f52bf1f7f9487bce9ecdfe24e08261c)]

/-- The curve at these signatures. -/
@[reducible]
def knownCurve : Secp256k1 where
  recover recoverable message := (recoveredKeys.find? fun known =>
    known.1 = recoverable ∧ known.2.1 = fromBigEndian message).map fun known => known.2.2
  verify signature _ _ := decide ¬signature.High
  not_high_of_verify _ _ _ h := of_decide_eq_true h
  verify_recovered _ _ _ _ h := decide_eq_true h

/-- The digests at these keys. -/
@[reducible]
def knownDigests : Digests where
  sha1 := id
  sha256 := Sha256.hash
  ripemd160 input :=
    if fromBigEndian input = 0xf0f8e6d12e3d627c083f3dd1c45153e1c92edc061910989747ce6c14694ea164 then
      LittleEndian.encode 20 0x2f99e63e49cc5db3aa1babe664709279472646ae |>.reverse
    else if fromBigEndian input = 0x47dd53a1033846389c9ed1d1070395e42335ba08b33aa71e995f45eb2d47fbea then
      LittleEndian.encode 20 0xf7c18c5b889218d5284e0cf9e4f1018ec1857b16 |>.reverse
    else []
  length_sha256 := Sha256.length_hash

section

attribute [local instance] knownDigests knownCurve

example : fromQueryParameters .mainnet (linkQuery linkSignature) =
    .ok ⟨⟨.mainnet, (LittleEndian.encode 20 0x2f99e63e49cc5db3aa1babe664709279472646ae).reverse⟩,
      ⟨[0xb3, 0x7c, 0xca, 0xa6, 0x2a, 0xa8, 0x49, 0xe7], rfl⟩, linkQuery linkSignature, 0, .sealed⟩ := by
  rw [fromQueryParameters, toList_linkQuery]
  decide +kernel

/-- The link with the negated number crashes the parser, and a query that ends with its state is accepted
with either state. -/
theorem not_authenticated_links :
    (∃ text, fromQueryParameters .mainnet (linkQuery negatedSignature) = .error (.panic text)) ∧
    Accepted .mainnet (stateLastQuery "S") (stateLastParameters .sealed) ∧
    Accepted .mainnet (stateLastQuery "U") (stateLastParameters .unsealed) ∧
    signedMessage (stateLastQuery "S").toList = signedMessage (stateLastQuery "U").toList := by
  refine ⟨⟨"called `Result::unwrap()` on an `Err` value: IncorrectSignature", ?_⟩,
    ⟨?_, stateLastCard "S" .sealed, ?_⟩,
    ⟨?_, stateLastCard "U" .unsealed, ?_⟩, ?_⟩
  · rw [fromQueryParameters, toList_linkQuery]
    decide +kernel
  · rw [toList_stateLastQuery]
    decide +kernel
  · rw [fromQueryParameters, toList_stateLastQuery]
    decide +kernel
  · rw [toList_stateLastQuery]
    decide +kernel
  · rw [fromQueryParameters, toList_stateLastQuery]
    decide +kernel
  · rw [toList_stateLastQuery, toList_stateLastQuery]
    decide +kernel

end

end Lord.Satscards
