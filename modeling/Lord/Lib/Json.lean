import Lord.Lib.Decimal
import Lord.Lib.Utf8

/-! JSON: the compact text of values, and what every text of an object or array satisfies: a scan from its
first bracket to the one that closes it, with nothing but a separator behind a string. -/

namespace Lord

/-- A JSON value. -/
inductive Json where
  | null
  | number (n : Nat)
  | string (s : String)
  | array (items : List Json)
  | object (fields : List (String × Json))

namespace Json

/-! ### Writing -/

/-- A character of a string. -/
def escape (c : Char) : List Char :=
  if c = '"' then ['\\', '"']
  else if c = '\\' then ['\\', '\\']
  else if c = '\x08' then ['\\', 'b']
  else if c = '\t' then ['\\', 't']
  else if c = '\n' then ['\\', 'n']
  else if c = '\x0c' then ['\\', 'f']
  else if c = '\r' then ['\\', 'r']
  else if c.toNat < 32 then
    ['\\', 'u', '0', '0', Nat.digitChar (c.toNat / 16), Nat.digitChar (c.toNat % 16)]
  else [c]

def quote (s : String) : List Char := '"' :: s.toList.flatMap escape ++ ['"']

mutual

/-- The compact text of a value. -/
def write : Json → List Char
  | .null => ['n', 'u', 'l', 'l']
  | .number n => (toString n).toList
  | .string s => quote s
  | .array items => '[' :: writeItems items ++ [']']
  | .object fields => '{' :: writeFields fields ++ ['}']

def writeItems : List Json → List Char
  | [] => []
  | [item] => write item
  | item :: next :: rest => write item ++ ',' :: writeItems (next :: rest)

def writeFields : List (String × Json) → List Char
  | [] => []
  | [(key, value)] => quote key ++ ':' :: write value
  | (key, value) :: next :: rest => quote key ++ ':' :: write value ++ ',' :: writeFields (next :: rest)

end

/-- Control characters are escaped. -/
theorem le_of_mem_escape (c : Char) : ∀ d ∈ escape c, 32 ≤ d.toNat := by
  have hdigit : ∀ n < 16, 32 ≤ (Nat.digitChar n).toNat := by decide
  unfold escape
  split_ifs with h1 h2 h3 h4 h5 h6 h7 h8
  · simp
  · simp
  · simp
  · simp
  · simp
  · simp
  · simp
  · have hhigh := hdigit (c.toNat / 16) (by omega)
    have hlow := hdigit (c.toNat % 16) (Nat.mod_lt _ (by decide))
    simp [hhigh, hlow]
  · simpa using h8

theorem le_of_mem_quote (s : String) : ∀ d ∈ quote s, 32 ≤ d.toNat := by
  intro d hd
  simp only [quote, List.mem_append, List.mem_cons, List.not_mem_nil, or_false, List.mem_flatMap] at hd
  rcases hd with (rfl | ⟨c, -, hd⟩) | rfl
  · decide
  · exact le_of_mem_escape c d hd
  · decide

mutual

/-- A compact text has no control characters. -/
theorem le_of_mem_write : ∀ value : Json, ∀ d ∈ write value, 32 ≤ d.toNat
  | .null => by simp [write]
  | .number n => by
    intro d hd
    have hdigit : d.isDigit = true := Decimal.isDigit_of_mem_toString hd
    exact le_trans (by decide) (Char.isDigit_iff_toNat.mp hdigit).1
  | .string s => le_of_mem_quote s
  | .array items => by
    have hitems := le_of_mem_writeItems items
    simpa [write, or_imp, forall_and] using hitems
  | .object fields => by
    have hfields := le_of_mem_writeFields fields
    simpa [write, or_imp, forall_and] using hfields

theorem le_of_mem_writeItems : ∀ items : List Json, ∀ d ∈ writeItems items, 32 ≤ d.toNat
  | [] => by simp [writeItems]
  | [item] => le_of_mem_write item
  | item :: next :: rest => by
    have hitem := le_of_mem_write item
    have hrest := le_of_mem_writeItems (next :: rest)
    simpa [writeItems, or_imp, forall_and] using ⟨hitem, hrest⟩

theorem le_of_mem_writeFields : ∀ fields : List (String × Json), ∀ d ∈ writeFields fields, 32 ≤ d.toNat
  | [] => by simp [writeFields]
  | [(key, value)] => by
    have hkey := le_of_mem_quote key
    have hvalue := le_of_mem_write value
    simpa [writeFields, or_imp, forall_and] using ⟨hkey, hvalue⟩
  | (key, value) :: next :: rest => by
    have hkey := le_of_mem_quote key
    have hvalue := le_of_mem_write value
    have hrest := le_of_mem_writeFields (next :: rest)
    simpa [writeFields, or_imp, forall_and, and_assoc] using ⟨hkey, hvalue, hrest⟩

end

/-- The bytes of a compact text are no control characters either. -/
theorem le_of_mem_encode_write (value : Json) :
    ∀ byte ∈ Utf8.encode (String.ofList (write value)), 0x20 ≤ byte := by
  intro byte hbyte
  rw [Utf8.encode_eq_flatMap, String.toList_ofList, List.mem_flatMap] at hbyte
  obtain ⟨c, hc, hbyte⟩ := hbyte
  have hle := le_of_mem_write value c hc
  by_contra hlow
  rw [UInt8.not_le, UInt8.lt_iff_toNat_lt] at hlow
  have hlow : byte.toNat < 32 := hlow
  have heq := Utf8.toNat_of_mem_utf8EncodeChar hbyte (by omega)
  omega

/-! ### Texts of objects and arrays -/

/-- Where a scan of a text stands outside of a string, right behind one, in one, or behind a backslash in it. -/
inductive Mode where
  | plain
  | closed
  | string
  | escape
  deriving DecidableEq

/-- How far a text is scanned; `inside` counts the brackets that are open beside the first. -/
inductive Scan where
  | start
  | inside (mode : Mode) (depth : Nat)
  | finished
  | dead
  deriving DecidableEq

def isBlank (byte : UInt8) : Bool := byte = 0x20 ∨ byte = 0x09 ∨ byte = 0x0a ∨ byte = 0x0d

def isOpening (byte : UInt8) : Bool := byte = 0x7b ∨ byte = 0x5b

def isClosing (byte : UInt8) : Bool := byte = 0x7d ∨ byte = 0x5d

/-- What may stand behind a string beside a closing bracket. -/
def isSeparator (byte : UInt8) : Bool := isBlank byte ∨ byte = 0x2c ∨ byte = 0x3a

/-- A bracket is closed. -/
def Scan.close : Nat → Scan
  | 0 => .finished
  | depth + 1 => .inside .plain depth

def Scan.step : Scan → UInt8 → Scan
  | .start, byte =>
    if isBlank byte then .start else if isOpening byte then .inside .plain 0 else .dead
  | .inside .plain depth, byte =>
    if byte = 0x22 then .inside .string depth
    else if isOpening byte then .inside .plain (depth + 1)
    else if isClosing byte then .close depth
    else .inside .plain depth
  | .inside .closed depth, byte =>
    if isClosing byte then .close depth
    else if isSeparator byte then .inside .plain depth
    else .dead
  | .inside .string depth, byte =>
    if byte = 0x22 then .inside .closed depth
    else if byte = 0x5c then .inside .escape depth
    else .inside .string depth
  | .inside .escape depth, _ => .inside .string depth
  | .finished, byte => if isBlank byte then .finished else .dead
  | .dead, _ => .dead

/-- The scan of a text. -/
def Scan.over (scan : Scan) (text : Bytes) : Scan := text.foldl Scan.step scan

/-- The brackets of a text are closed at its end and not before, and a separator stands behind each of its
strings. -/
def Balanced (text : Bytes) : Prop := Scan.start.over text = .finished

instance (text : Bytes) : Decidable (Balanced text) := inferInstanceAs (Decidable (_ = _))

example : Balanced (Utf8.encode "\x7b\"a\":[1,\"\\\"]\"]\x7d ") := by decide

example : ¬Balanced (Utf8.encode "\x7b\"a\":\x7b\"a\":1\x7d") := by decide

namespace Scan

theorem over_append (scan : Scan) (a b : Bytes) : scan.over (a ++ b) = (scan.over a).over b :=
  List.foldl_append

theorem over_cons (scan : Scan) (byte : UInt8) (text : Bytes) :
    scan.over (byte :: text) = (scan.step byte).over text := rfl

@[simp] theorem over_nil (scan : Scan) : scan.over [] = scan := rfl

@[simp] theorem over_dead (text : Bytes) : dead.over text = dead := by
  induction text with
  | nil => rfl
  | cons byte rest ih => exact ih

/-- Nothing but blanks comes behind the last bracket. -/
theorem over_finished {text : Bytes} (h : finished.over text = finished) :
    ∀ byte ∈ text, isBlank byte = true := by
  induction text with
  | nil => simp
  | cons byte rest ih =>
    rw [over_cons, step] at h
    split at h
    · rename_i hblank
      exact List.forall_mem_cons.mpr ⟨hblank, ih h⟩
    · rw [over_dead] at h
      cases h

/-- A bracket of the text is open, or the text is refused: the scan does not end here. -/
def Stuck : Scan → Prop
  | .inside _ _ | .dead => True
  | _ => False

theorem Stuck.ne_finished {scan : Scan} (h : scan.Stuck) : scan ≠ finished := by
  rintro rfl
  exact h

/-- A scan with more open brackets around it. -/
def deepen (count : Nat) : Scan → Scan
  | .inside mode depth => .inside mode (depth + (count + 1))
  | .finished => .inside .plain count
  | scan => scan

theorem deepen_close (count depth : Nat) : close (depth + (count + 1)) = (close depth).deepen count := by
  cases depth with
  | zero => simp [close, deepen]
  | succ depth =>
    rw [Nat.add_right_comm]
    rfl

theorem step_deepen (count : Nat) (mode : Mode) (depth : Nat) (byte : UInt8) :
    ((inside mode depth).deepen count).step byte = ((inside mode depth).step byte).deepen count := by
  cases mode with
  | plain =>
    simp only [deepen, step, deepen_close]
    split_ifs <;> simp [Nat.add_right_comm]
  | closed =>
    simp only [deepen, step, deepen_close]
    split_ifs <;> rfl
  | string =>
    simp only [deepen, step]
    split_ifs <;> rfl
  | escape => rfl

theorem step_inside_ne_start (mode : Mode) (depth : Nat) (byte : UInt8) :
    (inside mode depth).step byte ≠ start := by
  cases mode with
  | escape => exact nofun
  | _ =>
    simp only [step]
    split_ifs <;> cases depth <;> exact nofun

theorem over_inside_ne_start (mode : Mode) (depth : Nat) (text : Bytes) :
    (inside mode depth).over text ≠ start := by
  have hkeep : ∀ (text : Bytes) (scan : Scan), scan ≠ start → scan.over text ≠ start := by
    intro text
    induction text with
    | nil => exact fun scan h => h
    | cons byte rest ih =>
      intro scan h
      refine ih _ ?_
      cases scan with
      | start => exact absurd rfl h
      | inside mode depth => exact step_inside_ne_start mode depth byte
      | finished =>
        simp only [step]
        split_ifs <;> exact nofun
      | dead => exact nofun
  exact hkeep text _ nofun

/-- A text that is not scanned to its end before its last byte is scanned in the same way inside of other
brackets. -/
theorem over_deepen (count : Nat) {text : Bytes} {mode : Mode} {depth : Nat}
    (h : ∀ front byte back, text = front ++ byte :: back → (inside mode depth).over front ≠ finished) :
    ((inside mode depth).deepen count).over text = ((inside mode depth).over text).deepen count := by
  induction text generalizing mode depth with
  | nil => rfl
  | cons byte rest ih =>
    rw [over_cons, over_cons, step_deepen]
    cases hnext : (inside mode depth).step byte with
    | inside mode' depth' =>
      refine ih fun front b back heq => ?_
      have := h (byte :: front) b back (by rw [heq, List.cons_append])
      rwa [over_cons, hnext] at this
    | finished =>
      cases rest with
      | nil => rfl
      | cons b back => exact absurd hnext (h [byte] b back rfl)
    | dead =>
      show dead.over rest = (dead.over rest).deepen count
      rw [over_dead]
      rfl
    | start => exact absurd hnext (step_inside_ne_start mode depth byte)

theorem stuck_deepen {scan : Scan} (h : scan ≠ start) (count : Nat) : (scan.deepen count).Stuck := by
  cases scan with
  | start => exact absurd rfl h
  | _ => trivial

end Scan

/-! ### Written texts -/

/-- The scan of characters. -/
def Scan.overChars (scan : Scan) (chars : List Char) : Scan :=
  scan.over (chars.flatMap String.utf8EncodeChar)

namespace Scan

theorem overChars_append (scan : Scan) (a b : List Char) :
    scan.overChars (a ++ b) = (scan.overChars a).overChars b := by
  simp only [overChars, List.flatMap_append, over_append]

theorem overChars_cons (scan : Scan) (c : Char) (rest : List Char) :
    scan.overChars (c :: rest) = (scan.overChars [c]).overChars rest :=
  overChars_append scan [c] rest

/-- A scan stays where it is when no byte of a character moves it. -/
theorem overChars_of_step {scan : Scan} {c : Char}
    (h : ∀ byte : UInt8, (byte.toNat < 128 → c.toNat = byte.toNat) → scan.step byte = scan) :
    scan.overChars [c] = scan := by
  have hbytes : ∀ bytes : Bytes, (∀ byte ∈ bytes, scan.step byte = scan) → scan.over bytes = scan := by
    intro bytes
    induction bytes with
    | nil => exact fun _ => rfl
    | cons byte rest ih =>
      intro hsteps
      rw [over_cons, hsteps byte List.mem_cons_self]
      exact ih fun b hb => hsteps b (List.mem_cons_of_mem _ hb)
  refine hbytes _ fun byte hbyte => h byte fun hascii => ?_
  rw [List.flatMap_cons, List.flatMap_nil, List.append_nil] at hbyte
  exact Utf8.toNat_of_mem_utf8EncodeChar hbyte hascii

/-- No byte of another character is the byte of an ASCII one. -/
theorem ne_of_ascii {c special : Char} {byte : UInt8} (h : byte.toNat < 128 → c.toNat = byte.toNat)
    (hne : c ≠ special) (hascii : special.toNat < 128) : byte ≠ UInt8.ofNat special.toNat := by
  rintro rfl
  have hspecial : (UInt8.ofNat special.toNat).toNat = special.toNat :=
    Nat.mod_eq_of_lt (Nat.lt_trans hascii (by decide))
  rw [hspecial] at h
  exact hne (Char.toNat_inj.mp (h hascii))

theorem overChars_string {c : Char} (hquote : c ≠ '"') (hbackslash : c ≠ '\\') (depth : Nat) :
    (inside .string depth).overChars [c] = inside .string depth := by
  refine overChars_of_step fun byte hbyte => ?_
  have h1 : byte ≠ 0x22 := ne_of_ascii hbyte hquote (by decide)
  have h2 : byte ≠ 0x5c := ne_of_ascii hbyte hbackslash (by decide)
  rw [step, if_neg h1, if_neg h2]

theorem overChars_escape (c : Char) (depth : Nat) :
    (inside .string depth).overChars (escape c) = inside .string depth := by
  have hdigit : ∀ n < 16, Nat.digitChar n ≠ '"' ∧ Nat.digitChar n ≠ '\\' := by decide
  unfold escape
  split_ifs with h1 h2 h3 h4 h5 h6 h7 h8
  · rfl
  · rfl
  · rfl
  · rfl
  · rfl
  · rfl
  · rfl
  · obtain ⟨hhigh, hhigh'⟩ := hdigit (c.toNat / 16) (by omega)
    obtain ⟨hlow, hlow'⟩ := hdigit (c.toNat % 16) (Nat.mod_lt _ (by decide))
    have hfront : (inside .string depth).overChars ['\\', 'u', '0', '0'] = inside .string depth := rfl
    rw [show ∀ high low, ['\\', 'u', '0', '0', high, low] = ['\\', 'u', '0', '0'] ++ [high] ++ [low] from
      fun _ _ => rfl, overChars_append, overChars_append, hfront, overChars_string hhigh hhigh',
      overChars_string hlow hlow']
  · exact overChars_string h1 h2 depth

theorem overChars_quote (s : String) (depth : Nat) :
    (inside .plain depth).overChars (quote s) = inside .closed depth := by
  have hinside : ∀ chars : List Char,
      (inside .string depth).overChars (chars.flatMap escape) = inside .string depth := by
    intro chars
    induction chars with
    | nil => rfl
    | cons c rest ih => rw [List.flatMap_cons, overChars_append, overChars_escape, ih]
  rw [quote, List.cons_append, overChars_cons, overChars_append]
  show ((inside .string depth).overChars (s.toList.flatMap escape)).overChars ['"'] = _
  rw [hinside]
  rfl

end Scan

open Scan

/-- A scan that stands outside of strings in front of these characters does so behind them, with the same
brackets open. -/
def Neutral (chars : List Char) : Prop :=
  ∀ depth, ∃ mode, (mode = .plain ∨ mode = .closed) ∧
    (inside .plain depth).overChars chars = inside mode depth

namespace Neutral

variable {a b : List Char}

theorem nil : Neutral [] := fun _ => ⟨.plain, .inl rfl, rfl⟩

/-- Characters other than quotes and brackets. -/
theorem of_plain {chars : List Char} (h : ∀ c ∈ chars, c ∉ ['"', '\x7b', '[', '\x7d', ']']) :
    Neutral chars := by
  intro depth
  refine ⟨.plain, .inl rfl, ?_⟩
  induction chars with
  | nil => rfl
  | cons c rest ih =>
    obtain ⟨hc, hrest⟩ := List.forall_mem_cons.mp h
    have hstay : (inside .plain depth).overChars [c] = inside .plain depth := by
      refine overChars_of_step fun byte hbyte => ?_
      simp only [List.mem_cons, List.not_mem_nil, or_false, not_or] at hc
      have h1 : byte ≠ 0x22 := ne_of_ascii hbyte hc.1 (by decide)
      have h2 : byte ≠ 0x7b := ne_of_ascii hbyte hc.2.1 (by decide)
      have h3 : byte ≠ 0x5b := ne_of_ascii hbyte hc.2.2.1 (by decide)
      have h4 : byte ≠ 0x7d := ne_of_ascii hbyte hc.2.2.2.1 (by decide)
      have h5 : byte ≠ 0x5d := ne_of_ascii hbyte hc.2.2.2.2 (by decide)
      simp [step, isOpening, isClosing, h1, h2, h3, h4, h5]
    rw [overChars_cons, hstay]
    exact ih hrest

theorem quote (s : String) : Neutral (quote s) := fun depth =>
  ⟨.closed, .inr rfl, overChars_quote s depth⟩

/-- A comma or a colon between two texts. -/
theorem separated (ha : Neutral a) (hb : Neutral b) {c : Char} (hc : c = ',' ∨ c = ':') :
    Neutral (a ++ c :: b) := by
  intro depth
  obtain ⟨mode, hmode, heq⟩ := ha depth
  have hseparator : (inside mode depth).overChars [c] = inside .plain depth := by
    rcases hmode with rfl | rfl <;> rcases hc with rfl | rfl <;> rfl
  rw [overChars_append, heq, overChars_cons, hseparator]
  exact hb depth

/-- The last bracket closes the first one. -/
theorem over_close (h : Neutral a) (depth : Nat) {last : Char} (hlast : last = '\x7d' ∨ last = ']') :
    (inside .plain depth).overChars (a ++ [last]) = close depth := by
  obtain ⟨mode, hmode, heq⟩ := h depth
  rw [overChars_append, heq]
  rcases hmode with rfl | rfl <;> rcases hlast with rfl | rfl <;> rfl

/-- Brackets around a text. -/
theorem bracketed (h : Neutral a) {first last : Char} (hfirst : first = '\x7b' ∨ first = '[')
    (hlast : last = '\x7d' ∨ last = ']') : Neutral (first :: a ++ [last]) := by
  intro depth
  have hopen : (inside .plain depth).overChars [first] = inside .plain (depth + 1) := by
    rcases hfirst with rfl | rfl <;> rfl
  refine ⟨.plain, .inl rfl, ?_⟩
  rw [List.cons_append, overChars_cons, hopen, h.over_close (depth + 1) hlast]
  rfl

end Neutral

mutual

/-- What is written leaves a scan where it was. -/
theorem neutral_write : ∀ value : Json, Neutral (write value)
  | .null => Neutral.of_plain (by simp [write])
  | .number n => by
    refine Neutral.of_plain fun c hc hmem => ?_
    have hdigit : c.isDigit = true := Decimal.isDigit_of_mem_toString hc
    simp only [List.mem_cons, List.not_mem_nil, or_false] at hmem
    rcases hmem with rfl | rfl | rfl | rfl | rfl <;> exact absurd hdigit (by decide)
  | .string s => Neutral.quote s
  | .array items => (neutral_writeItems items).bracketed (.inr rfl) (.inr rfl)
  | .object fields => (neutral_writeFields fields).bracketed (.inl rfl) (.inl rfl)

theorem neutral_writeItems : ∀ items : List Json, Neutral (writeItems items)
  | [] => Neutral.nil
  | [item] => neutral_write item
  | item :: next :: rest => (neutral_write item).separated (neutral_writeItems (next :: rest)) (.inl rfl)

theorem neutral_writeFields : ∀ fields : List (String × Json), Neutral (writeFields fields)
  | [] => Neutral.nil
  | [(key, value)] => (Neutral.quote key).separated (neutral_write value) (.inr rfl)
  | (key, value) :: next :: rest =>
    ((Neutral.quote key).separated (neutral_write value) (.inr rfl)).separated
      (neutral_writeFields (next :: rest)) (.inl rfl)

end

/-- The text of an object is balanced. -/
theorem balanced_write (fields : List (String × Json)) :
    Balanced (Utf8.encode (String.ofList (write (.object fields)))) := by
  have hend : start.overChars (write (.object fields)) = finished := by
    rw [write, List.cons_append, overChars_cons]
    exact (neutral_writeFields fields).over_close 0 (.inl rfl)
  rw [Balanced, Utf8.encode_eq_flatMap, String.toList_ofList]
  exact hend

/-! ### Reading -/

/-- What is relied on of a reader of values that are written as objects: it reads these back from their
text, and it accepts no text whose brackets are not closed at its end, or where a string runs into
something else. -/
structure ReadsBack {α : Type} (text : α → String) (fromStr : String → Result α) (values : List α) :
    Prop where
  reads : ∀ a ∈ values, fromStr (text a) = .ok a
  balanced : ∀ s a, fromStr s = .ok a → Balanced (Utf8.encode s)

/-! ### Lines of objects -/

/-- The text of an object whose first key is not empty and begins with no separator, with nothing around it. -/
structure IsRecord (text : Bytes) : Prop where
  balanced : Balanced text
  front : ∃ byte rest, text = 0x7b :: 0x22 :: byte :: rest ∧ isClosing byte = false ∧
    isSeparator byte = false
  last : ∃ rest, text = rest ++ [0x7d]

namespace IsRecord

open Scan

variable {text front : Bytes}

theorem ne_nil (h : IsRecord text) : text ≠ [] := by
  obtain ⟨byte, rest, rfl, -⟩ := h.front
  simp

/-- The scan is finished at the end only. -/
theorem over_ne_finished (h : IsRecord text) {byte : UInt8} {back : Bytes}
    (htext : text = front ++ byte :: back) : start.over front ≠ finished := by
  intro hfront
  have hend := h.balanced
  rw [Balanced, htext, over_append, hfront] at hend
  obtain ⟨rest, hlast⟩ := h.last
  have hmem : (0x7d : UInt8) ∈ byte :: back := by
    have hget := congrArg List.getLast? (htext.symm.trans hlast)
    rw [List.getLast?_append_of_ne_nil _ (by simp), List.getLast?_concat] at hget
    exact List.mem_of_getLast? hget
  exact absurd (over_finished hend _ hmem) (by decide)

/-- A part of a record is stuck. -/
theorem stuck_front (h : IsRecord text) (hfront : front <+: text) (hne : front ≠ [])
    (hpart : front ≠ text) : (start.over front).Stuck := by
  obtain ⟨back, rfl⟩ := hfront
  obtain ⟨byte, rest, htext, -⟩ := h.front
  cases back with
  | nil => exact absurd (List.append_nil front).symm hpart
  | cons b back =>
    have hopen := h.over_ne_finished rfl
    cases front with
    | nil => exact absurd rfl hne
    | cons first front =>
      rw [List.cons_append, List.cons.injEq] at htext
      obtain ⟨rfl, -⟩ := htext
      rw [over_cons] at hopen ⊢
      change (inside .plain 0).over front ≠ finished at hopen
      change ((inside .plain 0).over front).Stuck
      have hstart := over_inside_ne_start .plain 0 front
      generalize (inside .plain 0).over front = scan at hopen hstart ⊢
      cases scan with
      | start => exact absurd rfl hstart
      | finished => exact absurd rfl hopen
      | _ => trivial

/-- A part of a record behind a text that is finished is refused. -/
theorem over_finished (h : IsRecord text) (hfront : front <+: text) (hne : front ≠ []) :
    finished.over front = dead := by
  obtain ⟨byte, rest, rfl, -⟩ := h.front
  cases front with
  | nil => exact absurd rfl hne
  | cons first front =>
    obtain ⟨rfl, -⟩ := List.cons_prefix_cons.mp hfront
    exact over_dead front

/-- A part of a record behind a text that is stuck leaves it stuck. -/
theorem stuck_over (h : IsRecord text) (hfront : front <+: text) {scan : Scan} (hscan : scan.Stuck) :
    (scan.over front).Stuck := by
  cases scan with
  | start => exact hscan.elim
  | finished => exact hscan.elim
  | dead => rw [over_dead]; trivial
  | inside mode depth =>
    have hfinished : ∀ part byte back, front = 0x7b :: (part ++ byte :: back) →
        (inside .plain 0).over part ≠ finished := by
      intro part byte back heq
      obtain ⟨rest, hrest⟩ := hfront
      have htext : text = 0x7b :: part ++ byte :: (back ++ rest) := by
        rw [← hrest, heq]
        simp
      exact h.over_ne_finished htext
    obtain ⟨byte, rest, rfl, hclosing, hseparator⟩ := h.front
    cases front with
    | nil => trivial
    | cons first front =>
      obtain ⟨rfl, hbehind⟩ := List.cons_prefix_cons.mp hfront
      rw [over_cons]
      -- In a string the key closes it, and its first byte does not stand behind a string.
      have hkey : ((inside .string depth).over front).Stuck := by
        cases front with
        | nil => trivial
        | cons second front =>
          obtain ⟨rfl, hkey⟩ := List.cons_prefix_cons.mp hbehind
          cases front with
          | nil => trivial
          | cons third front =>
            obtain ⟨rfl, -⟩ := List.cons_prefix_cons.mp hkey
            have hdead : (inside .closed depth).step third = dead := by
              simp [step, hclosing, hseparator]
            change (((inside .closed depth).step third).over front).Stuck
            rw [hdead, over_dead]
            trivial
      cases mode with
      | plain =>
        have hopen : ∀ part b back, front = part ++ b :: back →
            (inside .plain 0).over part ≠ finished := fun part b back heq =>
          hfinished part b back (by rw [heq])
        have hdeep := over_deepen depth hopen
        rw [deepen, Nat.zero_add] at hdeep
        change ((inside .plain (depth + 1)).over front).Stuck
        rw [hdeep]
        exact stuck_deepen (over_inside_ne_start .plain 0 front) depth
      | closed =>
        change (dead.over front).Stuck
        rw [over_dead]
        trivial
      | string => exact hkey
      | escape => exact hkey

/-- Parts of records behind a text that is stuck leave it stuck. -/
theorem stuck_parts {parts : List (Bytes × Bytes)}
    (hparts : ∀ part ∈ parts, IsRecord part.1 ∧ part.2 <+: part.1) {scan : Scan} (hscan : scan.Stuck) :
    (scan.over (parts.flatMap Prod.snd)).Stuck := by
  induction parts generalizing scan with
  | nil => exact hscan
  | cons part rest ih =>
    obtain ⟨⟨hrecord, hpart⟩, hrest⟩ := List.forall_mem_cons.mp hparts
    rw [List.flatMap_cons, over_append]
    exact ih hrest (hrecord.stuck_over hpart hscan)

/-- A text made of parts of records is balanced only when it is one whole record. -/
theorem eq_singleton_of_balanced {parts : List (Bytes × Bytes)}
    (hparts : ∀ part ∈ parts, IsRecord part.1 ∧ part.2 <+: part.1 ∧ part.2 ≠ [])
    (h : Balanced (parts.flatMap Prod.snd)) : ∃ text, parts = [(text, text)] := by
  cases parts with
  | nil => cases h
  | cons part rest =>
    obtain ⟨⟨hrecord, hpart, hne⟩, hrest⟩ := List.forall_mem_cons.mp hparts
    rw [Balanced, List.flatMap_cons, over_append] at h
    obtain ⟨text, front⟩ := part
    by_cases hwhole : front = text
    · obtain rfl : front = text := hwhole
      cases rest with
      | nil => exact ⟨front, rfl⟩
      | cons next rest =>
        obtain ⟨hnext, hpart', hne'⟩ := hrest next List.mem_cons_self
        rw [show start.over front = finished from hrecord.balanced, List.flatMap_cons, over_append,
          hnext.over_finished hpart' hne', over_dead] at h
        cases h
    · have hstuck := hrecord.stuck_front hpart hne hwhole
      have hrest' := stuck_parts (fun part hmem => ⟨(hrest part hmem).1, (hrest part hmem).2.1⟩) hstuck
      exact absurd h hrest'.ne_finished

end IsRecord

theorem exists_write_object (key : String) (value : Json) (fields : List (String × Json)) :
    ∃ rest, (Json.object ((key, value) :: fields)).write = '{' :: Json.quote key ++ rest ++ ['}'] := by
  cases fields with
  | nil => exact ⟨':' :: value.write, by simp [Json.write, Json.writeFields]⟩
  | cons next fields =>
    exact ⟨':' :: value.write ++ ',' :: Json.writeFields (next :: fields), by
      simp [Json.write, Json.writeFields]⟩

/-- The text of an object is a record when its first key is fit. -/
theorem isRecord_object {key : String}
    (hkey : ∃ byte rest, Utf8.encode (String.ofList (key.toList.flatMap escape)) = byte :: rest ∧
      isClosing byte = false ∧ isSeparator byte = false)
    (value : Json) (fields : List (String × Json)) :
    IsRecord (Utf8.encode (String.ofList (write (.object ((key, value) :: fields))))) := by
  obtain ⟨byte, behind, hbytes, hclosing, hseparator⟩ := hkey
  obtain ⟨rest, hrest⟩ := exists_write_object key value fields
  have htext : Utf8.encode (String.ofList (write (.object ((key, value) :: fields)))) =
      0x7b :: 0x22 :: byte :: (behind ++ Utf8.encode (String.ofList ('"' :: rest))) ++ [0x7d] := by
    have hopen : String.utf8EncodeChar '{' = [0x7b] := rfl
    have hquote : String.utf8EncodeChar '"' = [0x22] := rfl
    have hclose : String.utf8EncodeChar '}' = [0x7d] := rfl
    rw [Utf8.encode_eq_flatMap, String.toList_ofList] at hbytes
    rw [Utf8.encode_eq_flatMap, Utf8.encode_eq_flatMap, String.toList_ofList, String.toList_ofList, hrest,
      quote]
    simp [List.flatMap_append, hopen, hquote, hclose, hbytes]
  refine ⟨balanced_write _, ⟨byte, _, by rw [htext]; rfl, hclosing, hseparator⟩, ⟨_, htext⟩⟩

end Json

end Lord
