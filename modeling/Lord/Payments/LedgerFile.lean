import Lord.Payments.Coordinator
import Lord.Lib.Json
import Lord.Lib.Lines
import Lord.Lib.Runs

/-! The file of the ecash ledger: records in JSON, a line each, that calls append behind whatever is
there.  A write may fail on the way, and the next record then continues its line. -/

namespace Lord.Payments

open Runs

/-- Local record of an ecash micro-payment tied to a binding. -/
structure MicroPaymentRecord where
  reference : String
  baoRoot : Bytes32
  purpose : String
  amountSats : UInt64
  deriving Repr, DecidableEq

/-- The compact JSON of a record. -/
def MicroPaymentRecord.text (record : MicroPaymentRecord) : String :=
  String.ofList (Json.object
    [("reference", .string record.reference),
      ("bao_root", .array (record.baoRoot.val.map fun byte => .number byte.toNat)),
      ("purpose", .string record.purpose),
      ("amount_sats", .number record.amountSats.toNat)]).write

/-- The line of a record, without its newline. -/
def MicroPaymentRecord.line (record : MicroPaymentRecord) : Bytes := Utf8.encode record.text

/-- The reader of records in JSON. -/
class MicroPaymentJson where
  fromStr : String → Result MicroPaymentRecord

/-- How the file system takes an append. -/
structure LedgerEnv where
  openFile : Result Unit
  append : Option WriteFault

/-- The bytes of the ledger, or `none` when it does not exist yet. -/
abbrev LedgerFile := Option Bytes

def newline : UInt8 := 0x0a

/-- The record of a payment for the binding. -/
def PaymentBinding.record (binding : PaymentBinding) (reference : String) : MicroPaymentRecord :=
  ⟨reference, binding.baoRoot, binding.purposeLabel, binding.amountSats⟩

/-- Append the record of a payment. -/
def LedgerFile.recordPayment (path : String) (env : LedgerEnv) (file : LedgerFile)
    (binding : PaymentBinding) (reference : String) : Result Unit × LedgerFile :=
  match env.openFile.context s!"failed to open ecash ledger `{path}`" with
  | .error err => (.error err, file)
  | .ok () =>
    let line := (binding.record reference).line
    let written := writeAll env.append (line ++ [newline])
    let message := if written.2.length ≤ line.length then "append ecash ledger record"
      else "sync ecash ledger"
    (written.1.context message, some (file.getD [] ++ written.2))

section

variable [MicroPaymentJson]

def decodeLine (segment : Bytes) : Result String :=
  okOr (Utf8.decode segment) "stream did not contain valid UTF-8"

/-- The record of a line; a blank or a corrupt line has none. -/
def readLine (segment : Bytes) : Result (Option MicroPaymentRecord) := do
  let text ← (decodeLine segment).context "read ecash ledger line"
  let line := Lines.strip text.toList
  if line.all Lines.isWhitespace then
    .ok none
  else
    match MicroPaymentJson.fromStr (String.ofList line) with
    | .error _ => .ok none
    | .ok record => .ok (some record)

/-- The loop over the lines. -/
def findPayment (binding : PaymentBinding) (reference : String) : List Bytes → Result Bool
  | [] => .ok false
  | segment :: rest =>
    match readLine segment with
    | .error err => .error err
    | .ok none => findPayment binding reference rest
    | .ok (some record) =>
      if record.reference = reference ∧ record.baoRoot = binding.baoRoot ∧
          record.purpose = binding.purposeLabel ∧ record.amountSats = binding.amountSats then
        .ok true
      else
        findPayment binding reference rest

def LedgerFile.hasPayment (file : LedgerFile) (binding : PaymentBinding) (reference : String) :
    Result Bool :=
  match file with
  | none => .ok false
  | some bytes => findPayment binding reference (Lines.splitInclusive newline bytes)

end

/-! ### The lines of a file -/

theorem readLine_isText [MicroPaymentJson] {segment : Bytes} {value : Option MicroPaymentRecord}
    (h : readLine segment = .ok value) : Utf8.IsText segment := by
  obtain ⟨text, htext, -⟩ := bind_eq_ok.mp h
  rw [Result.context_eq_ok, decodeLine, okOr_eq_ok] at htext
  exact ⟨text, Utf8.decode_eq_some.mp htext⟩

/-- The loop over lines that all read finds a payment whose record is among them. -/
theorem findPayment_eq [MicroPaymentJson] {segs : List Bytes} {ledger : List (Option MicroPaymentRecord)}
    (h : segs.mapM readLine = .ok ledger) (binding : PaymentBinding) (reference : String) :
    findPayment binding reference segs = .ok (decide (some (binding.record reference) ∈ ledger)) := by
  have hrecord : ∀ record : MicroPaymentRecord,
      (record.reference = reference ∧ record.baoRoot = binding.baoRoot ∧
        record.purpose = binding.purposeLabel ∧ record.amountSats = binding.amountSats) ↔
      binding.record reference = record := by
    rintro ⟨reference', baoRoot, purpose, amountSats⟩
    simp [PaymentBinding.record, eq_comm]
  induction segs generalizing ledger with
  | nil =>
    cases h
    rfl
  | cons segment rest ih =>
    rw [List.mapM_cons] at h
    obtain ⟨value, hvalue, h⟩ := bind_eq_ok.mp h
    obtain ⟨others, hothers, h⟩ := bind_eq_ok.mp h
    cases h
    rw [findPayment, hvalue]
    cases value with
    | none => simpa using ih hothers
    | some record =>
      dsimp only
      rw [ih hothers]
      by_cases hmatch : binding.record reference = record
      · rw [if_pos ((hrecord record).mpr hmatch), hmatch]
        simp
      · rw [if_neg (mt (hrecord record).mp hmatch)]
        simp [hmatch]

/-- Lines that are read in front of others. -/
theorem findPayment_append [MicroPaymentJson] {front : List Bytes} {binding : PaymentBinding}
    {reference : String} {found : Bool} (h : findPayment binding reference front = .ok found)
    (back : List Bytes) : findPayment binding reference (front ++ back) =
      if found then .ok true else findPayment binding reference back := by
  induction front with
  | nil =>
    cases h
    rfl
  | cons segment rest ih =>
    rw [findPayment] at h
    rw [List.cons_append, findPayment]
    cases hvalue : readLine segment with
    | error err =>
      rw [hvalue] at h
      cases h
    | ok value =>
      rw [hvalue] at h
      cases value with
      | none => exact ih h
      | some record =>
        dsimp only at h ⊢
        split
        · rename_i hmatch
          rw [if_pos hmatch] at h
          cases h
          rfl
        · rename_i hmatch
          rw [if_neg hmatch] at h
          exact ih h

/-- A loop that finds nothing has read every line. -/
theorem findPayment_false [MicroPaymentJson] {segs : List Bytes} {binding : PaymentBinding}
    {reference : String} (h : findPayment binding reference segs = .ok false) :
    ∀ segment ∈ segs, ∃ value, readLine segment = .ok value := by
  induction segs with
  | nil => simp
  | cons segment rest ih =>
    rw [findPayment] at h
    split at h
    · cases h
    · rename_i hvalue
      exact List.forall_mem_cons.mpr ⟨⟨_, hvalue⟩, ih h⟩
    · rename_i record hvalue
      split at h
      · cases h
      · exact List.forall_mem_cons.mpr ⟨⟨_, hvalue⟩, ih h⟩

/-! ### Pieces of records -/

/-- The first bytes of a record. -/
structure Piece where
  record : MicroPaymentRecord
  count : Nat

namespace Piece

def bytes (piece : Piece) : Bytes := piece.record.line.take piece.count

def whole (record : MicroPaymentRecord) : Piece := ⟨record, record.line.length⟩

/-- The piece is of one of these records, and not empty. -/
structure Of (records : List MicroPaymentRecord) (piece : Piece) : Prop where
  mem : piece.record ∈ records
  pos : 0 < piece.count
  le : piece.count ≤ piece.record.line.length

theorem bytes_whole (record : MicroPaymentRecord) : (whole record).bytes = record.line := List.take_length

theorem Of.bytes_ne_nil {records : List MicroPaymentRecord} {piece : Piece} (h : piece.Of records) :
    piece.bytes ≠ [] := by
  have hpos := h.pos
  have hle := h.le
  refine List.ne_nil_of_length_pos ?_
  rw [bytes, List.length_take]
  omega

/-- A piece with all the bytes of its record is whole. -/
theorem Of.eq_whole {records : List MicroPaymentRecord} {piece : Piece} (h : piece.Of records)
    (hbytes : piece.bytes = piece.record.line) : piece = whole piece.record := by
  have hlen := congrArg List.length hbytes
  have hle := h.le
  rw [bytes, List.length_take] at hlen
  obtain ⟨record, count⟩ := piece
  refine congrArg (Piece.mk record) ?_
  dsimp only at hlen hle ⊢
  omega

end Piece

def joined (pieces : List Piece) : Bytes := pieces.flatMap Piece.bytes

section

variable {records : List MicroPaymentRecord}

/-- A record's line is the text of an object. -/
theorem isRecord_line (record : MicroPaymentRecord) : Json.IsRecord record.line :=
  Json.isRecord_object ⟨0x72, _, rfl, by decide, by decide⟩ _ _

theorem line_ne_nil (record : MicroPaymentRecord) : record.line ≠ [] := (isRecord_line record).ne_nil

theorem le_of_mem_joined (pieces : List Piece) : ∀ byte ∈ joined pieces, 0x20 ≤ byte := by
  intro byte hbyte
  obtain ⟨piece, -, hmem⟩ := List.mem_flatMap.mp hbyte
  exact Json.le_of_mem_encode_write _ byte (List.mem_of_mem_take hmem)

theorem newline_not_mem (pieces : List Piece) : newline ∉ joined pieces :=
  fun hmem => absurd (le_of_mem_joined pieces _ hmem) (by decide)

/-- What is relied on of the reader for these records. -/
abbrev JsonOf [MicroPaymentJson] (records : List MicroPaymentRecord) : Prop :=
  Json.ReadsBack MicroPaymentRecord.text MicroPaymentJson.fromStr records

/-- The text of a line is what stands in front of its newline. -/
theorem strip_joined {pieces : List Piece} {text : String} (htext : joined pieces = Utf8.encode text) :
    Lines.strip text.toList = text.toList ∧
      Lines.strip (text ++ "\n").toList = text.toList := by
  have hlow := le_of_mem_joined pieces
  have hnone : ∀ c ∈ text.toList, c ≠ '\n' ∧ c ≠ '\r' := by
    intro c hc
    constructor
    · rintro rfl
      have hbyte : (0x0a : UInt8) ∈ joined pieces := htext ▸ Utf8.mem_encode hc (by decide)
      exact absurd (hlow _ hbyte) (by decide)
    · rintro rfl
      have hbyte : (0x0d : UInt8) ∈ joined pieces := htext ▸ Utf8.mem_encode hc (by decide)
      exact absurd (hlow _ hbyte) (by decide)
  constructor
  · rw [Lines.strip, if_neg]
    exact fun hlast => (hnone _ (List.mem_of_getLast? hlast)).1 rfl
  · have hlist : (text ++ "\n").toList = text.toList ++ ['\n'] := String.toList_append
    rw [hlist, Lines.strip, List.getLast?_concat, if_pos rfl, List.dropLast_concat, if_neg]
    exact fun hlast => (hnone _ (List.mem_of_getLast? hlast)).2 rfl

/-- A text made of pieces of records that reads is one whole record. -/
theorem eq_whole_of_reads [MicroPaymentJson] (hjson : JsonOf records) {pieces : List Piece}
    (hof : ∀ piece ∈ pieces, piece.Of records) {text : String} {record : MicroPaymentRecord}
    (htext : joined pieces = Utf8.encode text) (hread : MicroPaymentJson.fromStr text = .ok record) :
    pieces = [Piece.whole record] := by
  have hparts : ∀ part ∈ pieces.map (fun piece => (piece.record.line, piece.bytes)),
      Json.IsRecord part.1 ∧ part.2 <+: part.1 ∧ part.2 ≠ [] := by
    rintro part hpart
    obtain ⟨piece, hpiece, rfl⟩ := List.mem_map.mp hpart
    exact ⟨isRecord_line piece.record, List.take_prefix _ _, (hof piece hpiece).bytes_ne_nil⟩
  have hbalanced : Json.Balanced
      ((pieces.map fun piece => (piece.record.line, piece.bytes)).flatMap Prod.snd) := by
    rw [List.flatMap_map, show (pieces.flatMap fun piece => piece.bytes) = Utf8.encode text from htext]
    exact hjson.balanced text record hread
  obtain ⟨line, hline⟩ := Json.IsRecord.eq_singleton_of_balanced hparts hbalanced
  obtain ⟨piece, rfl, hpiece⟩ := List.map_eq_singleton_iff.mp hline
  obtain ⟨rfl, hbytes⟩ := Prod.mk.inj hpiece
  have hof := hof piece List.mem_cons_self
  have htext : piece.record.text = text := by
    apply Utf8.encode_injective
    rw [← htext, joined, List.flatMap_singleton, hbytes]
    rfl
  have hreads := hjson.reads piece.record hof.mem
  rw [htext, hread] at hreads
  rw [Except.ok.inj hreads, ← hof.eq_whole hbytes]

/-- A line of text has a record exactly when it is one whole record. -/
theorem readLine_joined [MicroPaymentJson] (hjson : JsonOf records) {pieces : List Piece}
    (hof : ∀ piece ∈ pieces, piece.Of records) (htext : Utf8.IsText (joined pieces)) {ending : Bytes}
    (hending : ending = [] ∨ ending = [newline]) :
    ∃ value, readLine (joined pieces ++ ending) = .ok value ∧
      ∀ record, value = some record ↔ pieces = [Piece.whole record] := by
  obtain ⟨text, htext⟩ := htext
  obtain ⟨hplain, hended⟩ := strip_joined htext
  obtain ⟨tail, rfl, hstrip⟩ : ∃ tail : String, ending = Utf8.encode tail ∧
      Lines.strip (text ++ tail).toList = text.toList := by
    rcases hending with rfl | rfl
    · exact ⟨"", rfl, by rwa [String.append_empty]⟩
    · exact ⟨"\n", by decide, hended⟩
  have hdecode : decodeLine (joined pieces ++ Utf8.encode tail) = .ok (text ++ tail) := by
    rw [decodeLine, okOr_eq_ok, Utf8.decode_eq_some, htext, Utf8.encode_append]
  -- A whole record is the text it was written as.
  have hwhole : ∀ record, pieces = [Piece.whole record] →
      MicroPaymentJson.fromStr text = .ok record ∧ '{' ∈ text.toList := by
    rintro record rfl
    have hsame : text = record.text := by
      apply Utf8.encode_injective
      rw [← htext, joined, List.flatMap_singleton, Piece.bytes_whole]
      rfl
    rw [hsame]
    refine ⟨hjson.reads record (hof _ List.mem_cons_self).mem, ?_⟩
    rw [MicroPaymentRecord.text, String.toList_ofList, Json.write]
    exact List.mem_append_left _ List.mem_cons_self
  have hread : readLine (joined pieces ++ Utf8.encode tail) =
      if text.toList.all Lines.isWhitespace then .ok none
      else match MicroPaymentJson.fromStr text with
        | .error _ => .ok none
        | .ok record => .ok (some record) := by
    rw [readLine, hdecode]
    show (if (Lines.strip (text ++ tail).toList).all Lines.isWhitespace then _ else _) = _
    rw [hstrip, String.ofList_toList]
  by_cases hblank : text.toList.all Lines.isWhitespace = true
  · rw [if_pos hblank] at hread
    refine ⟨none, hread, fun record => ⟨nofun, fun hpieces => ?_⟩⟩
    have hbrace := (hwhole record hpieces).2
    have hspace := List.all_eq_true.mp hblank '{' hbrace
    exact absurd hspace (by decide)
  · rw [if_neg hblank] at hread
    cases hfrom : MicroPaymentJson.fromStr text with
    | error err =>
      rw [hfrom] at hread
      refine ⟨none, hread, fun record => ⟨nofun, fun hpieces => ?_⟩⟩
      have hok := (hwhole record hpieces).1
      rw [hfrom] at hok
      cases hok
    | ok found =>
      rw [hfrom] at hread
      refine ⟨some found, hread, fun record => ⟨?_, fun hpieces => ?_⟩⟩
      · rintro ⟨⟩
        exact eq_whole_of_reads hjson hof htext hfrom
      · have hok := (hwhole record hpieces).1
        rw [hfrom] at hok
        rw [Except.ok.inj hok]

/-! ### Files of pieces -/

/-- The lines of a file as pieces of records, and the pieces behind the last newline. -/
structure LedgerView where
  lines : List (List Piece)
  rest : List Piece

namespace LedgerView

def bytes (view : LedgerView) : Bytes :=
  (view.lines.flatMap fun pieces => joined pieces ++ [newline]) ++ joined view.rest

/-- The view behind the first bytes of the line of a record. -/
def extend (view : LedgerView) (record : MicroPaymentRecord) (count : Nat) : LedgerView :=
  if record.line.length < count then
    ⟨view.lines ++ [view.rest ++ [Piece.whole record]], []⟩
  else if count = 0 then
    view
  else
    ⟨view.lines, view.rest ++ [⟨record, count⟩]⟩

theorem bytes_extend (view : LedgerView) (record : MicroPaymentRecord) (count : Nat) :
    (view.extend record count).bytes =
      view.bytes ++ (record.line ++ [newline]).take count := by
  unfold extend
  split
  · rename_i hlong
    rw [List.take_of_length_le (by simp; omega)]
    simp [bytes, joined, Piece.whole, Piece.bytes]
  · rename_i hshort
    split
    · rename_i hzero
      simp [hzero]
    · rw [List.take_append_of_le_length (by omega)]
      simp [bytes, joined, Piece.bytes]

/-- The lines of the view, with that behind the last newline when there is one. -/
def segments (view : LedgerView) : List Bytes :=
  view.lines.map (fun pieces => joined pieces ++ [newline]) ++
    if view.rest = [] then [] else [joined view.rest]

/-- Every piece is one of these records. -/
def Of (records : List MicroPaymentRecord) (view : LedgerView) : Prop :=
  ∀ pieces ∈ view.rest :: view.lines, ∀ piece ∈ pieces, piece.Of records

/-- No piece ends inside a character. -/
def IsText (view : LedgerView) : Prop :=
  ∀ pieces ∈ view.rest :: view.lines, ∀ piece ∈ pieces, Utf8.IsText piece.bytes

/-- The record is a line of its own, or stands alone behind the last newline. -/
def Holds (view : LedgerView) (record : MicroPaymentRecord) : Prop :=
  [Piece.whole record] ∈ view.rest :: view.lines

end LedgerView

theorem joined_ne_nil {pieces : List Piece}
    (hof : ∀ piece ∈ pieces, piece.Of records) (hne : pieces ≠ []) : joined pieces ≠ [] := by
  obtain ⟨piece, rest, rfl⟩ := List.exists_cons_of_ne_nil hne
  intro hnil
  exact (hof piece List.mem_cons_self).bytes_ne_nil (List.append_eq_nil_iff.mp hnil).1

/-- The lines of the file are those of its view. -/
theorem segments_bytes {view : LedgerView} (hof : view.Of records) :
    Lines.splitInclusive newline view.bytes = view.segments := by
  obtain ⟨lines, rest⟩ := view
  induction lines with
  | nil =>
    have hrest := hof rest (by simp)
    simp only [LedgerView.bytes, LedgerView.segments, List.flatMap_nil, List.map_nil,
      List.nil_append]
    by_cases hnil : rest = []
    · rw [if_pos hnil, hnil]
      rfl
    · rw [if_neg hnil]
      exact Lines.splitInclusive_last (newline_not_mem rest) (joined_ne_nil hrest hnil)
  | cons pieces lines ih =>
    have hpieces := hof pieces (by simp)
    have hothers := ih fun others hmem => hof others (by
      rcases List.mem_cons.mp hmem with rfl | hmem
      · simp
      · simp [hmem])
    simp only [LedgerView.bytes, LedgerView.segments, List.flatMap_cons, List.map_cons,
      List.append_assoc, List.cons_append, List.nil_append] at hothers ⊢
    rw [Lines.splitInclusive_append (newline_not_mem pieces), hothers]

theorem isText_joined {pieces : List Piece} (h : ∀ piece ∈ pieces, Utf8.IsText piece.bytes) :
    Utf8.IsText (joined pieces) := by
  induction pieces with
  | nil => exact ⟨"", rfl⟩
  | cons piece rest ih =>
    exact (h piece (by simp)).append (ih fun p hp => h p (List.mem_cons_of_mem _ hp))

theorem LedgerView.mem_segments {view : LedgerView} {segment : Bytes} :
    segment ∈ view.segments ↔ (∃ pieces ∈ view.lines, segment = joined pieces ++ [newline]) ∨
      view.rest ≠ [] ∧ segment = joined view.rest := by
  rw [LedgerView.segments, List.mem_append, List.mem_map]
  refine or_congr (exists_congr fun pieces => and_congr_right fun _ => eq_comm) ?_
  split
  · rename_i hnil
    simp [hnil]
  · rename_i hnil
    simp [hnil]

/-- A file whose pieces are all text reads as a ledger of what it holds. -/
theorem readLedger [MicroPaymentJson] (hjson : JsonOf records) {view : LedgerView} (hof : view.Of records)
    (htext : view.IsText) :
    ∃ ledger : List (Option MicroPaymentRecord), view.segments.mapM readLine = .ok ledger ∧
      ∀ record, some record ∈ ledger ↔ view.Holds record := by
  let value := fun segment => (readLine segment).toOption.join
  have hread : ∀ pieces ∈ view.rest :: view.lines, ∀ ending, ending = [] ∨ ending = [newline] →
      readLine (joined pieces ++ ending) = .ok (value (joined pieces ++ ending)) ∧
        ∀ record, value (joined pieces ++ ending) = some record ↔
          pieces = [Piece.whole record] := by
    intro pieces hpieces ending hending
    obtain ⟨found, hfound, hiff⟩ := readLine_joined hjson (hof pieces hpieces)
      (isText_joined (htext pieces hpieces)) hending
    have hvalue : value (joined pieces ++ ending) = found := by
      show (readLine (joined pieces ++ ending)).toOption.join = found
      rw [hfound]
      rfl
    rw [hvalue]
    exact ⟨hfound, hiff⟩
  have hrest := (hread view.rest (by simp) [] (.inl rfl))
  rw [List.append_nil] at hrest
  refine ⟨view.segments.map value, mapM_eq_ok fun segment hsegment => ?_, fun record => ?_⟩
  · rcases LedgerView.mem_segments.mp hsegment with ⟨pieces, hpieces, rfl⟩ | ⟨-, rfl⟩
    · exact (hread pieces (List.mem_cons_of_mem _ hpieces) [newline] (.inr rfl)).1
    · exact hrest.1
  · rw [List.mem_map]
    constructor
    · rintro ⟨segment, hsegment, hvalue⟩
      rcases LedgerView.mem_segments.mp hsegment with ⟨pieces, hpieces, rfl⟩ | ⟨-, rfl⟩
      · have hone := ((hread pieces (List.mem_cons_of_mem _ hpieces) [newline] (.inr rfl)).2
          record).mp hvalue
        exact List.mem_cons_of_mem _ (hone ▸ hpieces)
      · exact List.mem_cons.mpr (.inl ((hrest.2 record).mp hvalue).symm)
    · intro hholds
      rcases List.mem_cons.mp hholds with heq | hline
      · exact ⟨_, LedgerView.mem_segments.mpr (.inr ⟨by rw [← heq]; simp, rfl⟩),
          (hrest.2 record).mpr heq.symm⟩
      · exact ⟨_, LedgerView.mem_segments.mpr (.inl ⟨_, hline, rfl⟩),
          ((hread _ (List.mem_cons_of_mem _ hline) [newline] (.inr rfl)).2 record).mpr rfl⟩

/-- A file of text finds a payment exactly when it holds its record. -/
theorem hasPayment_view [MicroPaymentJson] (hjson : JsonOf records) {view : LedgerView}
    (hof : view.Of records)
    (htext : view.IsText) {file : LedgerFile} (hfile : file.getD [] = view.bytes)
    (binding : PaymentBinding) (reference : String) :
    ∃ found, file.hasPayment binding reference = .ok found ∧
      (found = true ↔ view.Holds (binding.record reference)) := by
  obtain ⟨ledger, hledger, hholds⟩ := readLedger hjson hof htext
  have hfind : file.hasPayment binding reference = findPayment binding reference view.segments := by
    rw [← segments_bytes hof, ← hfile]
    cases file with
    | none => rfl
    | some bytes => rfl
  rw [hfind, findPayment_eq hledger]
  exact ⟨_, rfl, decide_eq_true_iff.trans (hholds _)⟩

/-! ### Runs of calls -/

/-- A call, and how the file system takes it. -/
structure RecordCall where
  binding : PaymentBinding
  reference : String
  env : LedgerEnv

def RecordCall.record (call : RecordCall) : MicroPaymentRecord := call.binding.record call.reference

/-- The file, with the records of the calls before and of those that succeeded. -/
structure LedgerRun where
  file : LedgerFile
  attempted : List MicroPaymentRecord
  recorded : List MicroPaymentRecord

def LedgerRun.empty : LedgerRun := ⟨none, [], []⟩

def execRecord (path : String) (s : LedgerRun) (call : RecordCall) : LedgerRun :=
  let result := s.file.recordPayment path call.env call.binding call.reference
  { file := result.2, attempted := call.record :: s.attempted,
    recorded := match result.1 with
      | .ok () => call.record :: s.recorded
      | .error _ => s.recorded }

/-- The ledger has every payment whose call succeeded, and none that no call was made for. -/
structure LedgerRun.Kept [MicroPaymentJson] (s : LedgerRun) : Prop where
  recorded : ∀ binding reference, PaymentBinding.record binding reference ∈ s.recorded →
    s.file.hasPayment binding reference = .ok true
  unattempted : ∀ binding reference, PaymentBinding.record binding reference ∉ s.attempted →
    s.file.hasPayment binding reference = .ok false

/-- The file is empty or ends in a newline. -/
def LedgerFile.Terminated (file : LedgerFile) : Prop :=
  ∀ byte, (file.getD []).getLast? = some byte → byte = newline

/-- A call that writes the whole line finds the file terminated, or a line of its payment in it, and
one that fails does so between two characters. -/
def RecordCall.Safe (s : LedgerRun) (call : RecordCall) : Prop :=
  call.env.openFile = .ok () →
    (call.env.append = none →
      s.file.Terminated ∨ call.record.line ++ [newline] ∈
        Lines.splitInclusive newline (s.file.getD [])) ∧
    ∀ fault, call.env.append = some fault →
      Utf8.IsText (call.record.line.take fault.written)

/-- The view shows the file: every piece is one of the records and text, a record that stands alone
has been attempted, and one of a successful call has a line. -/
structure LedgerView.Shows (records : List MicroPaymentRecord) (view : LedgerView) (s : LedgerRun) :
    Prop where
  bytes : s.file.getD [] = view.bytes
  of : view.Of records
  text : view.IsText
  attempted : ∀ record, view.Holds record → record ∈ s.attempted
  recorded : ∀ record ∈ s.recorded, [Piece.whole record] ∈ view.lines

theorem LedgerView.Shows.kept [MicroPaymentJson] (hjson : JsonOf records) {view : LedgerView} {s : LedgerRun}
    (h : view.Shows records s) : s.Kept := by
  constructor
  · intro binding reference hrecorded
    obtain ⟨found, hfound, hiff⟩ := hasPayment_view hjson h.of h.text h.bytes binding reference
    rw [hfound, hiff.mpr (List.mem_cons_of_mem _ (h.recorded _ hrecorded))]
  · intro binding reference hnot
    obtain ⟨found, hfound, hiff⟩ := hasPayment_view hjson h.of h.text h.bytes binding reference
    have hfalse : found = false := by
      rw [← Bool.not_eq_true]
      exact fun htrue => hnot (h.attempted _ (hiff.mp htrue))
    rw [hfound, hfalse]

/-- The pieces that a write may add continue what stands behind the last newline. -/
theorem LedgerView.mem_extend {view : LedgerView} {record : MicroPaymentRecord} {count : Nat}
    (hpos : 0 < record.line.length) {pieces : List Piece}
    (h : pieces ∈ (view.extend record count).rest :: (view.extend record count).lines) :
    pieces ∈ view.rest :: view.lines ∨ pieces = [] ∨ ∃ taken, pieces = view.rest ++ [⟨record, taken⟩] ∧
      0 < taken ∧ taken ≤ record.line.length ∧
      (taken = record.line.length ∨ taken = count) := by
  unfold extend at h
  split at h
  · rcases List.mem_cons.mp h with rfl | h
    · exact .inr (.inl rfl)
    rcases List.mem_append.mp h with h | h
    · exact .inl (List.mem_cons_of_mem _ h)
    · exact .inr (.inr ⟨_, List.mem_singleton.mp h, hpos, Nat.le_refl _, .inl rfl⟩)
  · rename_i hshort
    split at h
    · exact .inl h
    · rename_i hcount
      rcases List.mem_cons.mp h with rfl | h
      · exact .inr (.inr ⟨count, rfl, by omega, by omega, .inr rfl⟩)
      · exact .inl (List.mem_cons_of_mem _ h)

theorem LedgerView.lines_extend (view : LedgerView) (record : MicroPaymentRecord) (count : Nat) :
    ∀ pieces ∈ view.lines, pieces ∈ (view.extend record count).lines := by
  intro pieces hpieces
  unfold extend
  split
  · exact List.mem_append_left _ hpieces
  · split <;> exact hpieces

theorem isText_line (record : MicroPaymentRecord) : Utf8.IsText record.line := ⟨record.text, rfl⟩

/-- The view behind a write has pieces of the records, and those of it alone that had one. -/
theorem LedgerView.extend_of {view : LedgerView} (hof : view.Of records)
    {record : MicroPaymentRecord} (hrecord : record ∈ records) (count : Nat) :
    (view.extend record count).Of records := by
  intro pieces hpieces piece hpiece
  have hpos := List.length_pos_of_ne_nil (line_ne_nil record)
  obtain hold | rfl | ⟨taken, rfl, htaken, hle, -⟩ := mem_extend hpos hpieces
  · exact hof pieces hold piece hpiece
  · cases hpiece
  · rcases List.mem_append.mp hpiece with hpiece | hpiece
    · exact hof _ List.mem_cons_self piece hpiece
    · rw [List.mem_singleton.mp hpiece]
      exact ⟨hrecord, htaken, hle⟩

theorem LedgerView.extend_isText {view : LedgerView} (htext : view.IsText)
    {record : MicroPaymentRecord} {count : Nat}
    (hcut : Utf8.IsText (record.line.take count)) : (view.extend record count).IsText := by
  intro pieces hpieces piece hpiece
  have hpos := List.length_pos_of_ne_nil (line_ne_nil record)
  obtain hold | rfl | ⟨taken, rfl, -, -, htaken⟩ := mem_extend hpos hpieces
  · exact htext pieces hold piece hpiece
  · cases hpiece
  · rcases List.mem_append.mp hpiece with hpiece | hpiece
    · exact htext _ List.mem_cons_self piece hpiece
    · rw [List.mem_singleton.mp hpiece]
      show Utf8.IsText (record.line.take taken)
      rcases htaken with rfl | rfl
      · rw [List.take_length]
        exact isText_line record
      · exact hcut

theorem LedgerView.holds_extend {view : LedgerView} {record other : MicroPaymentRecord} {count : Nat}
    (h : (view.extend record count).Holds other) :
    view.Holds other ∨ other = record ∧ view.rest = [] := by
  have hpos := List.length_pos_of_ne_nil (line_ne_nil record)
  obtain hold | hnil | ⟨taken, hpieces, -⟩ := mem_extend hpos h
  · exact .inl hold
  · cases hnil
  · have hrest : view.rest = [] ∧ Piece.whole other = ⟨record, taken⟩ := by
      cases hview : view.rest with
      | nil =>
        rw [hview] at hpieces
        exact ⟨rfl, List.singleton_inj.mp hpieces⟩
      | cons piece rest =>
        rw [hview] at hpieces
        have hlen := congrArg List.length hpieces
        simp at hlen
    exact .inr ⟨congrArg Piece.record hrest.2, hrest.1⟩

/-- A file is terminated when nothing stands behind its last newline. -/
theorem terminated_iff {view : LedgerView} (hof : view.Of records)
    {file : LedgerFile} (hfile : file.getD [] = view.bytes) :
    file.Terminated ↔ view.rest = [] := by
  unfold LedgerFile.Terminated
  rw [hfile]
  have hrestOf := hof view.rest List.mem_cons_self
  constructor
  · intro h
    by_contra hne
    have hjoined := joined_ne_nil hrestOf hne
    have hlast := List.getLast?_eq_some_getLast hjoined
    have hbyte := h _ (by rw [LedgerView.bytes, List.getLast?_append, hlast]; rfl)
    exact newline_not_mem view.rest (hbyte ▸ List.getLast_mem hjoined)
  · intro hnil byte hbyte
    rw [LedgerView.bytes, hnil, joined, List.flatMap_nil, List.append_nil] at hbyte
    cases hlines : view.lines.reverse with
    | nil =>
      rw [List.reverse_eq_nil_iff.mp hlines] at hbyte
      cases hbyte
    | cons last front =>
      rw [List.reverse_eq_iff.mp hlines, List.reverse_cons, List.flatMap_append,
        List.flatMap_singleton, ← List.append_assoc, List.getLast?_concat] at hbyte
      exact (Option.some.inj hbyte).symm

/-- The lines of the file that are a record with its newline. -/
theorem mem_segments_iff [MicroPaymentJson] (hjson : JsonOf records) {view : LedgerView}
    (hof : view.Of records) {file : LedgerFile} (hfile : file.getD [] = view.bytes)
    {record : MicroPaymentRecord} (hrecord : record ∈ records) :
    record.line ++ [newline] ∈ Lines.splitInclusive newline (file.getD []) ↔
      [Piece.whole record] ∈ view.lines := by
  have hwhole : joined [Piece.whole record] = record.line := by
    rw [joined, List.flatMap_singleton, Piece.bytes_whole]
  rw [hfile, segments_bytes hof, LedgerView.mem_segments]
  constructor
  · rintro (⟨pieces, hpieces, heq⟩ | ⟨hne, heq⟩)
    · have hjoined : joined pieces = Utf8.encode record.text := (List.append_cancel_right heq).symm
      rwa [eq_whole_of_reads hjson (hof pieces (List.mem_cons_of_mem _ hpieces)) hjoined
        (hjson.reads record hrecord)] at hpieces
    · refine absurd ?_ (newline_not_mem view.rest)
      rw [← heq]
      simp
  · intro hmem
    exact .inl ⟨_, hmem, by rw [hwhole]⟩

/-- What an append does to the file. -/
theorem recordPayment_cases (path : String) {call : RecordCall} {view : LedgerView} {file : LedgerFile}
    (hfile : file.getD [] = view.bytes) :
    (∃ err, call.env.openFile ≠ .ok () ∧
      file.recordPayment path call.env call.binding call.reference = (.error err, file)) ∨
    (∃ file', call.env.openFile = .ok () ∧ call.env.append = none ∧
      file.recordPayment path call.env call.binding call.reference = (.ok (), file') ∧
      file'.getD [] = (view.extend call.record (call.record.line.length + 1)).bytes) ∨
    ∃ fault err file', call.env.openFile = .ok () ∧ call.env.append = some fault ∧
      file.recordPayment path call.env call.binding call.reference = (.error err, file') ∧
      file'.getD [] = (view.extend call.record fault.written).bytes := by
  unfold LedgerFile.recordPayment
  cases hopen : call.env.openFile with
  | error err => exact .inl ⟨_, nofun, rfl⟩
  | ok _ =>
    simp only [Result.context]
    cases hfault : call.env.append with
    | none =>
      refine .inr (.inl ⟨_, trivial, rfl, rfl, ?_⟩)
      rw [LedgerView.bytes_extend, List.take_of_length_le (by simp), ← hfile]
      rfl
    | some fault =>
      refine .inr (.inr ⟨fault, _, _, trivial, rfl, rfl, ?_⟩)
      rw [LedgerView.bytes_extend, ← hfile]
      rfl

/-- A safe call keeps the ledger readable, with what it records. -/
theorem LedgerView.Shows.step [MicroPaymentJson] (hjson : JsonOf records) (path : String) {view : LedgerView}
    {s : LedgerRun} (h : view.Shows records s) {call : RecordCall} (hcall : call.record ∈ records)
    (hsafe : call.Safe s) : ∃ view' : LedgerView, view'.Shows records (execRecord path s call) := by
  have hattempted : ∀ count record, (view.extend call.record count).Holds record →
      record ∈ call.record :: s.attempted := by
    intro count record hholds
    rcases holds_extend hholds with hold | ⟨rfl, -⟩
    · exact List.mem_cons_of_mem _ (h.attempted record hold)
    · exact List.mem_cons_self
  have hrecorded : ∀ count, ∀ record ∈ s.recorded,
      [Piece.whole record] ∈ (view.extend call.record count).lines :=
    fun count record hrecord => lines_extend _ _ _ _ (h.recorded record hrecord)
  unfold execRecord
  obtain ⟨err, -, hrun⟩ | ⟨file', hopen, hnone, hrun, hfile'⟩ |
    ⟨fault, err, file', hopen, hfault, hrun, hfile'⟩ := recordPayment_cases path h.bytes
  · rw [hrun]
    exact ⟨view, h.bytes, h.of, h.text,
      fun record hholds => List.mem_cons_of_mem _ (h.attempted record hholds), h.recorded⟩
  · rw [hrun]
    refine ⟨view.extend call.record (call.record.line.length + 1), hfile',
      extend_of h.of hcall _, ?_, hattempted _, ?_⟩
    · apply extend_isText h.text
      rw [List.take_of_length_le (by omega)]
      exact isText_line call.record
    · refine List.forall_mem_cons.mpr ⟨?_, hrecorded _⟩
      rcases (hsafe hopen).1 hnone with hterminated | hline
      · have hnil := (terminated_iff h.of h.bytes).mp hterminated
        rw [extend, if_pos (by omega), hnil]
        simp
      · exact lines_extend _ _ _ _ ((mem_segments_iff hjson h.of h.bytes hcall).mp hline)
  · rw [hrun]
    exact ⟨view.extend call.record fault.written, hfile', extend_of h.of hcall _,
      extend_isText h.text ((hsafe hopen).2 fault hfault), hattempted _, hrecorded _⟩

/-- Some payment is in none of the calls. -/
theorem exists_unattempted (attempted : List MicroPaymentRecord) :
    ∃ binding reference, PaymentBinding.record binding reference ∉ attempted := by
  obtain ⟨bound, hbound⟩ : ∃ bound, ∀ record ∈ attempted, record.reference.length ≤ bound := by
    induction attempted with
    | nil => exact ⟨0, by simp⟩
    | cons record rest ih =>
      obtain ⟨bound, hbound⟩ := ih
      refine ⟨max record.reference.length bound, List.forall_mem_cons.mpr ⟨le_max_left _ _, ?_⟩⟩
      exact fun other hother => (hbound other hother).trans (le_max_right _ _)
  refine ⟨⟨Bytes32.replicate 0, .challengeFee, 0⟩,
    String.ofList (List.replicate (bound + 1) 'a'), fun hmem => ?_⟩
  have hlen := hbound _ hmem
  simp [PaymentBinding.record] at hlen

/-- A call that leaves the ledger as it should be was safe. -/
theorem LedgerView.Shows.safe_of_kept [MicroPaymentJson] (hjson : JsonOf records) (path : String)
    {view : LedgerView}
    {s : LedgerRun} (h : view.Shows records s) {call : RecordCall} (hcall : call.record ∈ records)
    (hkept : (execRecord path s call).Kept) : call.Safe s := by
  intro hopen
  obtain ⟨err, hclosed, -⟩ | ⟨file', -, hnone, hrun, hfile'⟩ |
    ⟨fault, err, file', -, hfault, hrun, hfile'⟩ := recordPayment_cases path h.bytes
  · exact absurd hopen hclosed
  · refine ⟨fun _ => ?_, fun fault hfault => (nomatch hnone.symm.trans hfault)⟩
    have htext : (view.extend call.record (call.record.line.length + 1)).IsText := by
      apply extend_isText h.text
      rw [List.take_of_length_le (by omega)]
      exact isText_line call.record
    obtain ⟨found, hfound, hiff⟩ := hasPayment_view hjson (extend_of h.of hcall _) htext hfile'
      call.binding call.reference
    have hrecorded : call.record ∈ (execRecord path s call).recorded := by
      rw [execRecord, hrun]
      exact List.mem_cons_self
    have htrue := hkept.recorded call.binding call.reference hrecorded
    rw [execRecord, hrun] at htrue
    dsimp only at htrue
    rw [hfound] at htrue
    have hholds := hiff.mp (Except.ok.inj htrue)
    rw [LedgerView.Holds, extend, if_pos (by omega)] at hholds
    rcases List.mem_cons.mp hholds with hnil | hholds
    · cases hnil
    rcases List.mem_append.mp hholds with hline | hlast
    · exact .inr ((mem_segments_iff hjson h.of h.bytes hcall).mpr hline)
    · refine .inl ((terminated_iff h.of h.bytes).mpr ?_)
      have hlen := congrArg List.length (List.mem_singleton.mp hlast)
      rw [List.length_append, List.length_singleton, List.length_singleton] at hlen
      exact List.eq_nil_of_length_eq_zero (by omega)
  · refine ⟨fun hnone => (nomatch hnone.symm.trans hfault), fun fault' hfault' => ?_⟩
    obtain rfl : fault = fault' := Option.some.inj (hfault.symm.trans hfault')
    by_cases hlong : call.record.line.length < fault.written
    · rw [List.take_of_length_le (by omega)]
      exact isText_line call.record
    by_cases hzero : fault.written = 0
    · rw [hzero]
      exact ⟨"", rfl⟩
    -- A payment that no call was made for makes the reader read every line.
    obtain ⟨binding, reference, hnot⟩ := exists_unattempted (execRecord path s call).attempted
    have hfalse := hkept.unattempted binding reference hnot
    have hview : view.extend call.record fault.written =
        ⟨view.lines, view.rest ++ [⟨call.record, fault.written⟩]⟩ := by
      rw [extend, if_neg hlong, if_neg hzero]
    have hfind : findPayment binding reference
        (view.extend call.record fault.written).segments = .ok false := by
      rw [execRecord, hrun] at hfalse
      dsimp only at hfalse
      rw [← segments_bytes (extend_of h.of hcall _), ← hfile']
      cases file' with
      | none => exact hfalse
      | some bytes => exact hfalse
    have hmem : joined (view.rest ++ [⟨call.record, fault.written⟩]) ∈
        (view.extend call.record fault.written).segments := by
      rw [hview]
      exact mem_segments.mpr (.inr ⟨by simp, rfl⟩)
    obtain ⟨value, hvalue⟩ := findPayment_false hfind _ hmem
    have hjoined := readLine_isText hvalue
    rw [joined, List.flatMap_append, List.flatMap_singleton] at hjoined
    exact (isText_joined (h.text view.rest List.mem_cons_self)).of_append hjoined

end

/-- In a run of calls the ledger has every payment recorded so far, and no other, exactly when no
record is written behind a rest of another that its call leaves, and none is cut inside a
character. -/
theorem ledger_kept_iff [MicroPaymentJson] (path : String) (calls : List RecordCall)
    (hjson : JsonOf (calls.map RecordCall.record)) :
    Always (execRecord path) LedgerRun.Kept .empty calls ↔
      EachStep (execRecord path) (fun s call => call.Safe s) .empty calls := by
  have hempty : LedgerView.Shows (calls.map RecordCall.record) ⟨[], []⟩ .empty := by
    refine ⟨rfl, ?_, ?_, ?_, nofun⟩
    · intro pieces hpieces piece hpiece
      rw [List.mem_singleton.mp hpieces] at hpiece
      cases hpiece
    · intro pieces hpieces piece hpiece
      rw [List.mem_singleton.mp hpieces] at hpiece
      cases hpiece
    · intro record hholds
      cases List.mem_singleton.mp hholds
  have hsafe : ∀ s, ∀ call ∈ calls,
      (∃ view : LedgerView, view.Shows (calls.map RecordCall.record) s) →
      (LedgerRun.Kept (execRecord path s call) ↔ call.Safe s) := by
    rintro s call hcall ⟨view, hshows⟩
    refine ⟨hshows.safe_of_kept hjson path (List.mem_map_of_mem hcall), fun hsafe => ?_⟩
    obtain ⟨view', hshows'⟩ := hshows.step hjson path (List.mem_map_of_mem hcall) hsafe
    exact hshows'.kept hjson
  refine always_iff_of_keeps ?_ (fun s call hcall hshows _ => hsafe s call hcall hshows)
    ⟨_, hempty⟩ (hempty.kept hjson)
  rintro s call hcall ⟨view, hshows⟩ - hkept
  exact hshows.step hjson path (List.mem_map_of_mem hcall)
    ((hsafe s call hcall ⟨view, hshows⟩).mp hkept)

/-! ### One payment -/

/-- Behind a file that ends in a newline, a line of its own is the last segment. -/
theorem splitInclusive_of_terminated {file : LedgerFile} (hterminated : file.Terminated)
    (record : MicroPaymentRecord) :
    Lines.splitInclusive newline (file.getD [] ++ (record.line ++ [newline])) =
      Lines.splitInclusive newline (file.getD []) ++ [record.line ++ [newline]] := by
  have hline : Lines.splitInclusive newline (record.line ++ [newline]) = [record.line ++ [newline]] := by
    have hmem := newline_not_mem [Piece.whole record]
    rw [joined, List.flatMap_singleton, Piece.bytes_whole] at hmem
    exact Lines.splitInclusive_append hmem
  rcases List.eq_nil_or_concat' (file.getD []) with hnil | ⟨front, last, hfront⟩
  · rw [hnil, List.nil_append, hline]
    rfl
  · obtain rfl : last = newline := hterminated last (by rw [hfront, List.getLast?_concat])
    rw [hfront, List.append_assoc, List.singleton_append, Lines.splitInclusive_behind, hline]

/-- A payment that is recorded is found at once, when the file before it is read to its end and ends in a
newline. -/
theorem LedgerFile.hasPayment_recordPayment [MicroPaymentJson] {path : String} {env : LedgerEnv}
    {file file' : LedgerFile} {binding : PaymentBinding} {reference : String}
    (hjson : JsonOf [binding.record reference]) (hterminated : file.Terminated) {found : Bool}
    (hfound : file.hasPayment binding reference = .ok found)
    (h : file.recordPayment path env binding reference = (.ok (), file')) :
    file'.hasPayment binding reference = .ok true := by
  obtain rfl : file' = some (file.getD [] ++ ((binding.record reference).line ++ [newline])) := by
    unfold LedgerFile.recordPayment at h
    split at h
    · cases h
    · cases hfault : env.append with
      | none =>
        rw [hfault] at h
        exact (Prod.mk.inj h).2.symm
      | some fault =>
        rw [hfault] at h
        cases (Prod.mk.inj h).1
  have hfront : findPayment binding reference (Lines.splitInclusive newline (file.getD [])) = .ok found := by
    cases file with
    | none => exact hfound
    | some bytes => exact hfound
  have hread : readLine ((binding.record reference).line ++ [newline]) =
      .ok (some (binding.record reference)) := by
    have hof : ∀ piece ∈ [Piece.whole (binding.record reference)],
        piece.Of [binding.record reference] := by
      intro piece hpiece
      rw [List.mem_singleton.mp hpiece]
      exact ⟨List.mem_singleton_self _, List.length_pos_of_ne_nil (line_ne_nil _), Nat.le_refl _⟩
    have hjoined : joined [Piece.whole (binding.record reference)] = (binding.record reference).line := by
      rw [joined, List.flatMap_singleton, Piece.bytes_whole]
    have htext : Utf8.IsText (joined [Piece.whole (binding.record reference)]) := by
      rw [hjoined]
      exact isText_line _
    obtain ⟨value, hvalue, hiff⟩ := readLine_joined hjson hof htext (.inr rfl)
    rw [hjoined, (hiff _).mpr rfl] at hvalue
    exact hvalue
  show findPayment binding reference (Lines.splitInclusive newline
    (file.getD [] ++ ((binding.record reference).line ++ [newline]))) = _
  rw [splitInclusive_of_terminated hterminated, findPayment_append hfront]
  cases found with
  | true => rfl
  | false =>
    rw [if_neg Bool.false_ne_true, findPayment, hread]
    exact if_pos ⟨rfl, rfl, rfl, rfl⟩

/-! ### Two payments -/

/-- A reader of these records. -/
@[reducible] def recordsJson (records : List MicroPaymentRecord) : MicroPaymentJson where
  fromStr text := okOr (records.find? fun record => record.text = text)
    "expected value at line 1 column 1"

theorem recordsJson_of {records : List MicroPaymentRecord}
    (hreads : ∀ record ∈ records,
      (records.find? fun other => other.text = record.text) = some record) :
    @JsonOf (recordsJson records) records where
  reads record hrecord := okOr_eq_ok.mpr (hreads record hrecord)
  balanced text record hread := by
    have hmatch := List.find?_some (okOr_eq_ok.mp hread)
    obtain rfl : record.text = text := of_decide_eq_true hmatch
    exact Json.balanced_write _

def sampleBinding : PaymentBinding := ⟨Bytes32.replicate 5, .challengeFee, 25⟩

def otherBinding : PaymentBinding := ⟨Bytes32.replicate 6, .storageContract, 40⟩

def sampleRecords : List MicroPaymentRecord := [sampleBinding.record "a", otherBinding.record "b"]

/-- The first payment is recorded, and the write of the second fails behind five bytes. -/
def keptCalls : List RecordCall :=
  [⟨sampleBinding, "a", ⟨.ok (), none⟩⟩,
    ⟨otherBinding, "b", ⟨.ok (), some ⟨5, "no space left on device"⟩⟩⟩]

/-- The write of the first payment fails behind five bytes, and the second continues its line. -/
def tornCalls : List RecordCall :=
  [⟨sampleBinding, "a", ⟨.ok (), some ⟨5, "no space left on device"⟩⟩⟩,
    ⟨otherBinding, "b", ⟨.ok (), none⟩⟩]

@[reducible] def sampleJson : MicroPaymentJson := recordsJson sampleRecords

section

attribute [local instance] sampleJson

theorem sampleRecords_json : JsonOf sampleRecords :=
  recordsJson_of (by decide +kernel)

theorem ledger_kept_example :
    Always (execRecord "/lord/ecash/micro_payments.jsonl") LedgerRun.Kept .empty keptCalls := by
  refine (ledger_kept_iff _ keptCalls sampleRecords_json).mpr ?_
  refine eachStep_cons.mpr ⟨fun _ => ⟨fun _ => .inl nofun, nofun⟩,
    eachStep_cons.mpr ⟨fun _ => ⟨nofun, ?_⟩, eachStep_nil⟩⟩
  rintro fault ⟨⟩
  exact ⟨String.ofList ['\x7b', '"', 'r', 'e', 'f'], by decide +kernel⟩

/-- A payment whose call succeeds is lost behind the rest of another. -/
theorem ledger_not_kept_torn :
    ∃ calls, JsonOf (calls.map RecordCall.record) ∧
      ¬Always (execRecord "/lord/ecash/micro_payments.jsonl") LedgerRun.Kept .empty calls := by
  refine ⟨tornCalls, sampleRecords_json, fun h => ?_⟩
  have hkept := h tornCalls (List.prefix_refl _)
  have hrecorded : otherBinding.record "b" ∈
      (run (execRecord "/lord/ecash/micro_payments.jsonl") .empty tornCalls).recorded := by
    decide +kernel
  have hlost : (run (execRecord "/lord/ecash/micro_payments.jsonl") .empty tornCalls).file.hasPayment
      otherBinding "b" = .ok false := by
    decide +kernel
  have hfound := hkept.recorded otherBinding "b" hrecorded
  rw [hlost] at hfound
  cases hfound

end

end Lord.Payments
