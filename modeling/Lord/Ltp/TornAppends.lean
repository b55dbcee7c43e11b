import Lord.Ltp.Staging

/-! Appends of which some stop on the way: what a file of lines and torn lines reads as. -/

namespace Lord.Ltp

open Runs

namespace Staging

variable {Record : Type} {kind : Staging Record} {chainDataDir : String} {fromStr : String → Result Record}
  {record : Record} {env : AppendEnv} {file : Option Bytes}

/-! ### What an append writes -/

/-- The steps of an append before its write succeed. -/
def Reaches (kind : Staging Record) (record : Record) (env : AppendEnv) : Prop :=
  (kind.validate record).isOk ∧ env.createDir.isOk ∧ env.openFile.isOk ∧ env.lock.isOk

instance (record : Record) (env : AppendEnv) : Decidable (Reaches kind record env) :=
  inferInstanceAs (Decidable (_ ∧ _))

/-- What an append writes. -/
def written (kind : Staging Record) (record : Record) (env : AppendEnv) : Bytes :=
  if Reaches kind record env then
    match env.write with
    | none => kind.line record ++ [0x0a]
    | some fault => (kind.line record).take fault.written
  else []

theorem append_spec (kind : Staging Record) (chainDataDir : String) (env : AppendEnv) (record : Record)
    (file : Option Bytes) :
    (kind.append chainDataDir env record file).2.getD [] = file.getD [] ++ written kind record env ∧
      ((kind.append chainDataDir env record file).1.isOk = true ↔
        Reaches kind record env ∧ env.write = none) := by
  have herror : ∀ err : Error, (Except.error err : Result Unit).isOk = false := fun _ => rfl
  have hok : (Except.ok () : Result Unit).isOk = true := rfl
  cases hvalidate : kind.validate record with
  | error err => simp [append, written, Reaches, hvalidate, herror]
  | ok =>
    cases hdir : env.createDir with
    | error err => simp [append, written, Reaches, hvalidate, hdir, Result.context, herror]
    | ok =>
      cases hopen : env.openFile with
      | error err => simp [append, written, Reaches, hvalidate, hdir, hopen, Result.context, herror]
      | ok =>
        cases hlock : env.lock with
        | error err =>
          simp [append, written, Reaches, hvalidate, hdir, hopen, hlock, Result.context, herror]
        | ok =>
          cases hwrite : env.write with
          | none =>
            simp [append, written, Reaches, hvalidate, hdir, hopen, hlock, hwrite, Result.context, hok]
          | some fault =>
            simp [append, written, Reaches, hvalidate, hdir, hopen, hlock, hwrite, Result.context, hok,
              herror]

/-! ### Lines -/

/-- What is relied on of the JSON reader for the records of these calls. -/
abbrev ReadsBack (kind : Staging Record) (fromStr : String → Result Record)
    (calls : List (Record × AppendEnv)) : Prop :=
  Json.ReadsBack kind.text fromStr (calls.map Prod.fst)

theorem newline_not_mem_line (record : Record) : 0x0a ∉ kind.line record :=
  fun hmem => absurd (Json.le_of_mem_encode_write _ _ hmem) (by decide)

/-- A record's line is the text of an object. -/
theorem isRecord_line (kind : Staging Record) (record : Record) : Json.IsRecord (kind.line record) :=
  Json.isRecord_object ⟨0x72, _, rfl, by decide, by decide⟩ _ _

/-! ### Reading -/

theorem decode_text (record : Record) : Utf8.decode (kind.line record) = some (kind.text record) :=
  Utf8.decode_encode _

theorem decode_line (record : Record) :
    Utf8.decode (kind.line record ++ [0x0a]) = some (kind.text record ++ "\n") := by
  rw [Utf8.decode_eq_some, Utf8.encode_append]
  rfl

theorem exists_text (kind : Staging Record) (record : Record) :
    ∃ rest, (kind.text record).toList = '{' :: rest ++ ['}'] := by
  obtain ⟨rest, hrest⟩ := Json.exists_write_object "received_at" (.number (kind.receivedAt record).toNat)
    (kind.fields record)
  exact ⟨Json.quote "received_at" ++ rest, by rw [text, String.toList_ofList, hrest]; simp⟩

/-- A line reads as its record, with its newline or without. -/
theorem readLine_line (h : fromStr (kind.text record) = .ok record) (chainDataDir : String) (index : Nat) :
    kind.readLine fromStr chainDataDir (kind.line record ++ [0x0a]) index = .ok (some record) ∧
      kind.readLine fromStr chainDataDir (kind.line record) index = .ok (some record) := by
  obtain ⟨rest, hrest⟩ := exists_text kind record
  have hstrip : Lines.strip ((kind.text record).toList ++ ['\n']) = (kind.text record).toList :=
    Lines.strip_newline (by rw [hrest, List.getLast?_concat]; decide)
  have hstrip' : Lines.strip (kind.text record).toList = (kind.text record).toList :=
    Lines.strip_of_ne (by rw [hrest, List.getLast?_concat]; decide)
  have hblank : (kind.text record).toList.all Lines.isWhitespace = false := by
    have hbrace : Lines.isWhitespace '{' = false := by decide
    rw [hrest]
    simp [hbrace]
  have hread : ∀ message : String, (Result.context (fromStr (String.ofList (kind.text record).toList))
      message).map some = .ok (some record) := by
    intro message
    rw [String.ofList_toList, h]
    rfl
  constructor
  · simp only [readLine, decode_line, String.toList_append]
    rw [show "\n".toList = ['\n'] from rfl, hstrip, hblank]
    exact hread _
  · simp only [readLine, decode_text]
    rw [hstrip', hblank]
    exact hread _

/-- The bytes of whole lines. -/
def lines (kind : Staging Record) (records : List Record) : Bytes :=
  records.flatMap fun record => kind.line record ++ [0x0a]

theorem lines_concat (records : List Record) (record : Record) :
    lines kind (records ++ [record]) = lines kind records ++ (kind.line record ++ [0x0a]) := by
  simp [lines]

/-- Whole lines read as their records, and so does a line behind them that has no newline. -/
theorem mapM_lines {records : List Record} {last : Option Record}
    (hrecords : ∀ record ∈ records ++ last.toList, fromStr (kind.text record) = .ok record)
    (hlast : ∀ record ∈ last, kind.line record ≠ []) (index : Nat) :
    ((Lines.splitInclusive 0x0a (lines kind records ++ last.elim [] kind.line)).zipIdx index).mapM
      (fun piece => kind.readLine fromStr chainDataDir piece.1 piece.2) =
        .ok ((records ++ last.toList).map some) := by
  induction records generalizing index with
  | nil =>
    cases last with
    | none => rfl
    | some record =>
      have hread := (readLine_line (hrecords record (by simp)) chainDataDir index).2
      rw [lines, List.flatMap_nil, List.nil_append, Option.elim_some,
        Lines.splitInclusive_last (newline_not_mem_line record) (hlast record rfl)]
      simp only [List.zipIdx_cons, List.zipIdx_nil, List.mapM_cons, List.mapM_nil, hread]
      rfl
  | cons record rest ih =>
    have hread := (readLine_line (hrecords record (by simp)) chainDataDir index).1
    have hrest := ih (fun other hother => hrecords other (by simp_all)) (index + 1)
    rw [lines, List.flatMap_cons, List.append_assoc, List.append_assoc, List.singleton_append,
      Lines.splitInclusive_append (newline_not_mem_line record), List.zipIdx_cons, List.mapM_cons]
    dsimp only
    rw [hread, ok_bind, ← lines, hrest]
    rfl

/-- What a file reads as depends on its bytes only. -/
theorem read_getD (file : Option Bytes) :
    kind.read fromStr chainDataDir file = kind.read fromStr chainDataDir (some (file.getD [])) := by
  cases file <;> rfl

theorem read_lines {records : List Record} {last : Option Record} (hfile : file.getD [] =
      lines kind records ++ last.elim [] kind.line)
    (hrecords : ∀ record ∈ records ++ last.toList, fromStr (kind.text record) = .ok record)
    (hlast : ∀ record ∈ last, kind.line record ≠ []) :
    kind.read fromStr chainDataDir file = .ok (records ++ last.toList) := by
  rw [read_getD, hfile, read, mapM_lines hrecords hlast, ok_bind]
  show Except.ok (List.filterMap id _) = _
  rw [List.filterMap_map]
  simp

/-! ### Broken files -/

/-- A file has a line that no record is read from, and that more bytes do not mend. -/
def Broken (content : Bytes) : Prop :=
  ∃ front piece back, content = front ++ (piece ++ back) ∧
    (front = [] ∨ ∃ rest, front = rest ++ [0x0a]) ∧ 0x0a ∉ piece ∧ 0x7b ∈ piece ∧
    (Json.Scan.start.over piece).Stuck ∧
    (back = [] ∨ ∃ rest, back = 0x0a :: rest)

theorem stuck_blank {scan : Json.Scan} (h : scan.Stuck) : (scan.step 0x0a).Stuck := by
  cases scan with
  | start => exact h.elim
  | finished => exact h.elim
  | dead => trivial
  | inside mode depth => cases mode <;> trivial

theorem over_blanks (tail : List Char) (h : ∀ c ∈ tail, c = '\n' ∨ c = '\r') :
    Json.Scan.finished.over (Utf8.encode (String.ofList tail)) = .finished := by
  rw [Utf8.encode_eq_flatMap, String.toList_ofList]
  induction tail with
  | nil => rfl
  | cons c rest ih =>
    obtain ⟨hc, hrest⟩ := List.forall_mem_cons.mp h
    rw [List.flatMap_cons, Json.Scan.over_append]
    have hstep : Json.Scan.finished.over (String.utf8EncodeChar c) = .finished := by
      rcases hc with rfl | rfl <;> rfl
    rw [hstep]
    exact ih hrest

/-- No record is read from a line that is stuck. -/
theorem readLine_stuck {calls : List (Record × AppendEnv)} (hreads : ReadsBack kind fromStr calls)
    {piece : Bytes} (hbrace : 0x7b ∈ piece) (hstuck : (Json.Scan.start.over piece).Stuck)
    (chainDataDir : String) (index : Nat) (line : Option Record) :
    kind.readLine fromStr chainDataDir piece index ≠ .ok line := by
  unfold readLine
  cases hdecode : Utf8.decode piece with
  | none => exact nofun
  | some text =>
    rw [Utf8.decode_eq_some] at hdecode
    obtain ⟨tail, htext, htail⟩ := Lines.exists_strip text.toList
    have hmem : '{' ∈ Lines.strip text.toList := by
      have hin : '{' ∈ text.toList := by
        by_contra hnot
        rw [hdecode] at hbrace
        exact Utf8.not_mem_encode rfl (by decide) hnot hbrace
      rw [htext, List.mem_append] at hin
      refine hin.resolve_right fun hblank => ?_
      rcases htail _ hblank with heq | heq <;> exact absurd heq (by decide)
    have hblank : (Lines.strip text.toList).all Lines.isWhitespace = false :=
      List.all_eq_false.mpr ⟨'{', hmem, by decide⟩
    dsimp only
    rw [hblank]
    cases hparse : fromStr (String.ofList (Lines.strip text.toList)) with
    | error err => exact nofun
    | ok record =>
      have hbalanced := hreads.balanced _ _ hparse
      have hfinished : Json.Scan.start.over piece = .finished := by
        have hsplit : text = String.ofList (Lines.strip text.toList) ++ String.ofList tail := by
          rw [← String.toList_inj, String.toList_append, String.toList_ofList, String.toList_ofList,
            ← htext]
        rw [hdecode, hsplit, Utf8.encode_append, Json.Scan.over_append, hbalanced,
          over_blanks tail htail]
      exact absurd hfinished hstuck.ne_finished

/-- A broken file does not read. -/
theorem Broken.read_ne {calls : List (Record × AppendEnv)} (hreads : ReadsBack kind fromStr calls)
    (h : Broken (file.getD [])) (records : List Record) :
    kind.read fromStr chainDataDir file ≠ .ok records := by
  obtain ⟨front, piece, back, hfile, hfront, hnewline, hbrace, hstuck, hback⟩ := h
  -- The piece stands among those of the file, with its newline when it has one.
  have hpiece : ∃ piece', (Json.Scan.start.over piece').Stuck ∧ 0x7b ∈ piece' ∧
      piece' ∈ Lines.splitInclusive 0x0a (front ++ (piece ++ back)) := by
    have hbehind : ∀ piece', piece' ∈ Lines.splitInclusive 0x0a (piece ++ back) →
        piece' ∈ Lines.splitInclusive 0x0a (front ++ (piece ++ back)) := by
      intro piece' hmem
      rcases hfront with rfl | ⟨rest, rfl⟩
      · exact hmem
      · rw [List.append_assoc, List.singleton_append, Lines.splitInclusive_behind]
        exact List.mem_append_right _ hmem
    rcases hback with rfl | ⟨rest, rfl⟩
    · refine ⟨piece, hstuck, hbrace, hbehind piece ?_⟩
      rw [List.append_nil, Lines.splitInclusive_last hnewline (List.ne_nil_of_mem hbrace)]
      exact List.mem_singleton_self _
    · refine ⟨piece ++ [0x0a], ?_, List.mem_append_left _ hbrace, hbehind _ ?_⟩
      · rw [Json.Scan.over_append]
        exact stuck_blank hstuck
      · rw [Lines.splitInclusive_append hnewline]
        exact List.mem_cons_self
  obtain ⟨piece', hstuck', hbrace', hmem⟩ := hpiece
  intro hread
  rw [read_getD, hfile, read] at hread
  obtain ⟨lines, hlines, -⟩ := bind_eq_ok.mp hread
  obtain ⟨index, hindex⟩ := List.mem_iff_getElem?.mp hmem
  obtain ⟨line, hline⟩ := mapM_ok_mem hlines (List.mk_mem_zipIdx_iff_getElem?.mpr hindex)
  exact readLine_stuck hreads hbrace' hstuck' _ _ _ hline

/-! ### Runs of appends -/

/-- A staging file, and the records whose append returned `Ok`. -/
structure Staged (Record : Type) where
  file : Option Bytes
  returned : List Record

def Staged.content (s : Staged Record) : Bytes := s.file.getD []

def exec (kind : Staging Record) (chainDataDir : String) (s : Staged Record)
    (call : Record × AppendEnv) : Staged Record :=
  let appended := kind.append chainDataDir call.2 call.1 s.file
  ⟨appended.2, if appended.1.isOk then s.returned ++ [call.1] else s.returned⟩

/-- The reader returns every record whose append returned `Ok`, in order. -/
def Survives (kind : Staging Record) (fromStr : String → Result Record) (chainDataDir : String)
    (s : Staged Record) : Prop :=
  ∃ records, kind.read fromStr chainDataDir s.file = .ok records ∧ s.returned.Sublist records

/-- The file ends in a line without a newline. -/
def Staged.Unfinished (s : Staged Record) : Prop :=
  ∃ byte, s.content.getLast? = some byte ∧ byte ≠ 0x0a

/-- An append stops when a part of its line is written. -/
def Torn (kind : Staging Record) (call : Record × AppendEnv) : Prop :=
  Reaches kind call.1 call.2 ∧ call.2.write.isSome ∧ written kind call.1 call.2 ≠ []

/-- Nothing is written behind an unfinished line, and a torn append lacks its newline only. -/
structure Clean (kind : Staging Record) (s : Staged Record) (call : Record × AppendEnv) : Prop where
  unfinished : s.Unfinished → written kind call.1 call.2 = []
  torn : Torn kind call → written kind call.1 call.2 = kind.line call.1

section

variable {s : Staged Record} {call : Record × AppendEnv} {calls : List (Record × AppendEnv)}

theorem exec_content (s : Staged Record) (call : Record × AppendEnv) :
    (exec kind chainDataDir s call).content = s.content ++ written kind call.1 call.2 :=
  (append_spec kind chainDataDir call.2 call.1 s.file).1

/-- An append returns with its line written, or it fails with a part of it. -/
theorem written_spec (kind : Staging Record) (chainDataDir : String) (s : Staged Record)
    (call : Record × AppendEnv) :
    ((exec kind chainDataDir s call).returned = s.returned ++ [call.1] ∧
      written kind call.1 call.2 = kind.line call.1 ++ [0x0a] ∧ ¬Torn kind call) ∨
    ((exec kind chainDataDir s call).returned = s.returned ∧
      written kind call.1 call.2 <+: kind.line call.1 ∧
      (Torn kind call ↔ written kind call.1 call.2 ≠ [])) := by
  have hok := (append_spec kind chainDataDir call.2 call.1 s.file).2
  by_cases hreaches : Reaches kind call.1 call.2
  · cases hwrite : call.2.write with
    | none =>
      refine .inl ⟨?_, by simp [written, hreaches, hwrite], by simp [Torn, hwrite]⟩
      simp [exec, hok.mpr ⟨hreaches, hwrite⟩]
    | some fault =>
      have hnot : (kind.append chainDataDir call.2 call.1 s.file).1.isOk ≠ true := by
        rw [Ne, hok, hwrite]
        simp
      refine .inr ⟨by simp [exec, hnot], ?_, by simp [Torn, hreaches, hwrite]⟩
      simpa [written, hreaches, hwrite] using List.take_prefix _ _
  · have hnot : (kind.append chainDataDir call.2 call.1 s.file).1.isOk ≠ true := by
      rw [Ne, hok]
      exact fun h => hreaches h.1
    refine .inr ⟨by simp [exec, hnot], by simp [written, hreaches], by simp [Torn, written, hreaches]⟩

/-- What an append writes is a part of its line, and a newline at most behind it. -/
theorem written_parts (kind : Staging Record) (call : Record × AppendEnv) : ∃ part tail,
    written kind call.1 call.2 = part ++ tail ∧ part <+: kind.line call.1 ∧ 0x0a ∉ part ∧
      (tail = [] ∨ tail = [0x0a]) ∧ (part = [] → kind.line call.1 ≠ [] → tail = []) := by
  rcases written_spec kind "" ⟨none, []⟩ call with ⟨-, hwritten, -⟩ |
    ⟨-, hbegins, -⟩
  · exact ⟨kind.line call.1, [0x0a], hwritten, List.prefix_rfl, newline_not_mem_line _, .inr rfl,
      fun hnil hne => absurd hnil hne⟩
  · exact ⟨written kind call.1 call.2, [], (List.append_nil _).symm, hbegins,
      fun hmem => newline_not_mem_line _ (hbegins.subset hmem), .inl rfl, fun _ _ => rfl⟩

theorem lines_end (kind : Staging Record) (records : List Record) : lines kind records = [] ∨
    ∃ rest, lines kind records = rest ++ [0x0a] := by
  induction records using List.reverseRecOn with
  | nil => exact .inl rfl
  | append_singleton rest last ih =>
    exact .inr ⟨lines kind rest ++ kind.line last, by rw [lines_concat, List.append_assoc]⟩

/-- The file has the lines of the records whose append returned `Ok`, and at most a line without a newline
behind them; each is the line of an append. -/
def Whole (kind : Staging Record) (calls : List (Record × AppendEnv)) (s : Staged Record) : Prop :=
  ∃ last : Option Record, s.content = lines kind s.returned ++ last.elim [] kind.line ∧
    ∀ record ∈ s.returned ++ last.toList, ∃ call ∈ calls, call.1 = record

theorem unfinished_iff {last : Option Record}
    (hcontent : s.content = lines kind s.returned ++ last.elim [] kind.line) :
    s.Unfinished ↔ last.isSome := by
  rw [Staged.Unfinished, hcontent]
  cases last with
  | none =>
    refine iff_of_false ?_ (by simp)
    rintro ⟨byte, hlast, hne⟩
    rcases lines_end kind s.returned with hnil | ⟨rest, hrest⟩
    · simp [hnil] at hlast
    · rw [hrest, Option.elim_none, List.append_nil, List.getLast?_concat, Option.some.injEq] at hlast
      exact hne hlast.symm
  | some record =>
    obtain ⟨rest, hrest⟩ := (isRecord_line kind record).last
    refine iff_of_true ⟨0x7d, ?_, by decide⟩ rfl
    rw [Option.elim_some, hrest, ← List.append_assoc, List.getLast?_concat]

theorem Whole.step (hs : Whole kind calls s) (hcall : call ∈ calls) (hclean : Clean kind s call) :
    Whole kind calls (exec kind chainDataDir s call) := by
  obtain ⟨last, hcontent, hrecords⟩ := hs
  have hrecord : ∃ other ∈ calls, other.1 = call.1 := ⟨call, hcall, rfl⟩
  have hunfinished := unfinished_iff hcontent
  rcases written_spec kind chainDataDir s call with
    ⟨hreturned, hwritten, -⟩ | ⟨hreturned, -, htorn⟩
  · cases last with
    | some record =>
      have hnone := hclean.unfinished (hunfinished.mpr rfl)
      rw [hwritten] at hnone
      simp at hnone
    | none =>
      refine ⟨none, ?_, ?_⟩
      · rw [exec_content, hcontent, hreturned, lines_concat, hwritten]
        simp
      · intro record hmem
        rw [hreturned] at hmem
        simp only [Option.toList_none, List.append_nil, List.mem_append, List.mem_singleton] at hmem
        rcases hmem with hmem | rfl
        · exact hrecords record (by simp [hmem])
        · exact hrecord
  · by_cases hnone : written kind call.1 call.2 = []
    · refine ⟨last, ?_, by rwa [hreturned]⟩
      rw [exec_content, hnone, List.append_nil, hcontent, hreturned]
    · cases last with
      | some record => exact absurd (hclean.unfinished (hunfinished.mpr rfl)) hnone
      | none =>
        refine ⟨some call.1, ?_, ?_⟩
        · rw [exec_content, hcontent, hreturned, hclean.torn (htorn.mpr hnone)]
          simp
        · intro record hmem
          rw [hreturned] at hmem
          simp only [Option.toList_some, List.mem_append, List.mem_singleton] at hmem
          rcases hmem with hmem | rfl
          · exact hrecords record (by simp [hmem])
          · exact hrecord

theorem Whole.lost (hs : Whole kind calls s) (hclean : ¬Clean kind s call) :
    Broken (exec kind chainDataDir s call).content := by
  obtain ⟨last, hcontent, hrecords⟩ := hs
  have hline := isRecord_line kind call.1
  have hunfinished := unfinished_iff hcontent
  rw [exec_content, hcontent]
  have hwrites : written kind call.1 call.2 ≠ [] := by
    intro hnone
    refine hclean ⟨fun _ => hnone, fun htorn => ?_⟩
    exact absurd hnone htorn.2.2
  cases last with
  | some record =>
    -- The line in front has no newline, and whatever comes goes on behind its last bracket.
    have hfront := isRecord_line kind record
    obtain ⟨part, tail, hwritten, hbegins, hnewline, htail, hempty⟩ := written_parts kind call
    have hne : part ≠ [] := by
      intro hnil
      rw [hwritten, hnil, hempty hnil hline.ne_nil] at hwrites
      exact hwrites rfl
    refine ⟨lines kind s.returned, kind.line record ++ part, tail, ?_, lines_end kind _, ?_, ?_, ?_, ?_⟩
    · rw [hwritten, Option.elim_some]
      simp
    · rw [List.mem_append, not_or]
      exact ⟨newline_not_mem_line record, hnewline⟩
    · obtain ⟨byte, rest, heq, -⟩ := hfront.front
      rw [heq]
      simp
    · rw [Json.Scan.over_append, hfront.balanced, hline.over_finished hbegins hne]
      trivial
    · exact htail.imp_right fun heq => ⟨[], heq⟩
  | none =>
    have hfinished : ¬s.Unfinished := by simp [hunfinished]
    have htorn : Torn kind call ∧ written kind call.1 call.2 ≠ kind.line call.1 := by
      by_contra hnot
      exact hclean ⟨fun hopen => absurd hopen hfinished, fun htorn => by
        by_contra hpart
        exact hnot ⟨htorn, hpart⟩⟩
    rcases written_spec kind chainDataDir s call with ⟨-, -, hwhole⟩ |
      ⟨-, hbegins, -⟩
    · exact absurd htorn.1 hwhole
    · refine ⟨lines kind s.returned, written kind call.1 call.2, [], by simp, lines_end kind _,
        fun hmem => newline_not_mem_line _ (hbegins.subset hmem), ?_,
        hline.stuck_front hbegins hwrites htorn.2, .inl rfl⟩
      obtain ⟨byte, rest, heq, -⟩ := hline.front
      rw [heq] at hbegins
      cases hpart : written kind call.1 call.2 with
      | nil => exact absurd hpart hwrites
      | cons first back =>
        rw [hpart] at hbegins
        rw [(List.cons_prefix_cons.mp hbegins).1]
        exact List.mem_cons_self

theorem Broken.step (call : Record × AppendEnv) (hs : Broken s.content) :
    Broken (exec kind chainDataDir s call).content := by
  obtain ⟨front, piece, back, hcontent, hfront, hnewline, hbrace, hstuck, hback⟩ := hs
  have hline := isRecord_line kind call.1
  rw [exec_content, hcontent]
  rcases hback with rfl | ⟨rest, rfl⟩
  · obtain ⟨part, tail, hwritten, hbegins, hpart, htail, -⟩ := written_parts kind call
    refine ⟨front, piece ++ part, tail, by simp [hwritten], hfront, ?_, List.mem_append_left _ hbrace, ?_,
      htail.imp_right fun heq => ⟨[], heq⟩⟩
    · rw [List.mem_append, not_or]
      exact ⟨hnewline, hpart⟩
    · rw [Json.Scan.over_append]
      exact hline.stuck_over hbegins hstuck
  · exact ⟨front, piece, 0x0a :: (rest ++ written kind call.1 call.2), by simp, hfront, hnewline, hbrace,
      hstuck, .inr ⟨_, rfl⟩⟩

/-- No process has staged anything. -/
def start : Staged Record := ⟨none, []⟩

/-- A reader gets through the file exactly when no step of the run writes behind an unfinished line, or
stops within the JSON of its own. -/
theorem reads_iff (h : ReadsBack kind fromStr calls) :
    (∃ records, kind.read fromStr chainDataDir (run (exec kind chainDataDir) start calls).file =
        .ok records) ↔
      EachStep (exec kind chainDataDir) (Clean kind) start calls := by
  have hstart : Whole kind calls start := ⟨none, rfl, by simp [start]⟩
  constructor
  · rintro ⟨records, hread⟩
    exact eachStep_of_not_doomed (B := fun s => Broken s.content)
      (fun s call hcall hs hclean => hs.step hcall hclean)
      (fun s call _ hs hclean => hs.lost hclean) (fun s call _ hs => hs.step call) hstart
      fun hbroken => hbroken.read_ne h records hread
  · intro hclean
    obtain ⟨last, hcontent, hrecords⟩ := always_of_eachStep
      (fun s call hcall hs hclean => hs.step hcall hclean) hstart hclean calls List.prefix_rfl
    refine ⟨_, read_lines hcontent (fun record hmem => ?_) fun record hmem => ?_⟩
    · obtain ⟨call, hcall, rfl⟩ := hrecords record hmem
      exact h.reads _ (List.mem_map_of_mem hcall)
    · exact (isRecord_line kind record).ne_nil

/-- And it returns every record whose append returned `Ok`, and no record that was not appended. -/
theorem read_run (h : ReadsBack kind fromStr calls) {records : List Record}
    (hread : kind.read fromStr chainDataDir (run (exec kind chainDataDir) start calls).file =
      .ok records) :
    (run (exec kind chainDataDir) start calls).returned.Sublist records ∧
      ∀ record ∈ records, ∃ call ∈ calls, call.1 = record := by
  have hstart : Whole kind calls start := ⟨none, rfl, by simp [start]⟩
  obtain ⟨last, hcontent, hrecords⟩ := always_of_eachStep
    (fun s call hcall hs hclean => hs.step hcall hclean) hstart ((reads_iff h).mp ⟨records, hread⟩)
    calls List.prefix_rfl
  have hlines := @read_lines _ _ chainDataDir _ _ _ _ hcontent
    (fun record hmem => by
      obtain ⟨call, hcall, rfl⟩ := hrecords record hmem
      exact h.reads _ (List.mem_map_of_mem hcall))
    fun record hmem => (isRecord_line kind record).ne_nil
  rw [hlines] at hread
  cases hread
  exact ⟨List.sublist_append_left _ _, hrecords⟩

/-- The reader returns what was appended exactly when no step of the run writes behind an unfinished line, or
stops within the JSON of its own. -/
theorem survives_iff (h : ReadsBack kind fromStr calls) :
    Survives kind fromStr chainDataDir (run (exec kind chainDataDir) start calls) ↔
      EachStep (exec kind chainDataDir) (Clean kind) start calls := by
  rw [← reads_iff h]
  constructor
  · rintro ⟨records, hread, -⟩
    exact ⟨records, hread⟩
  · rintro ⟨records, hread⟩
    exact ⟨records, hread, (read_run h hread).1⟩

/-- The records whose append returned `Ok`. -/
theorem mem_returned {record : Record} :
    record ∈ (run (exec kind chainDataDir) start calls).returned ↔
      ∃ call ∈ calls, call.1 = record ∧ Reaches kind record call.2 ∧ call.2.write = none := by
  induction calls using List.reverseRecOn with
  | nil => simp [run, start]
  | append_singleton front call ih =>
    have hok := (append_spec kind chainDataDir call.2 call.1
      (run (exec kind chainDataDir) start front).file).2
    rw [run_append, exec]
    dsimp only
    split
    · rename_i happended
      obtain ⟨hreaches, hwrite⟩ := hok.mp happended
      rw [List.mem_append, ih, List.mem_singleton]
      constructor
      · rintro (⟨other, hother, hspec⟩ | rfl)
        · exact ⟨other, List.mem_append_left _ hother, hspec⟩
        · exact ⟨call, by simp, rfl, hreaches, hwrite⟩
      · rintro ⟨other, hother, rfl, hspec⟩
        rcases List.mem_append.mp hother with hother | hother
        · exact .inl ⟨other, hother, rfl, hspec⟩
        · exact .inr (by rw [List.mem_singleton.mp hother])
    · rename_i happended
      rw [ih]
      constructor
      · rintro ⟨other, hother, hspec⟩
        exact ⟨other, List.mem_append_left _ hother, hspec⟩
      · rintro ⟨other, hother, rfl, hspec⟩
        rcases List.mem_append.mp hother with hother | hother
        · exact ⟨other, hother, rfl, hspec⟩
        · rw [List.mem_singleton] at hother
          subst hother
          exact absurd (hok.mpr hspec) happended

/-! ### The directory -/

/-- The directory stands in the messages only. -/
theorem append_file_eq (chainDataDir other : String) (env : AppendEnv) (record : Record)
    (file : Option Bytes) :
    (kind.append chainDataDir env record file).2 = (kind.append other env record file).2 := by
  unfold append
  cases kind.validate record with
  | error err => rfl
  | ok =>
    cases env.createDir with
    | error err => rfl
    | ok =>
      cases env.openFile with
      | error err => rfl
      | ok =>
        cases env.lock with
        | error err => rfl
        | ok => cases env.write <;> rfl

/-- The file behind a run, without what was returned. -/
theorem run_file (s : Staged Record) (calls : List (Record × AppendEnv)) :
    (run (exec kind chainDataDir) s calls).file =
      run (fun file call => (kind.append chainDataDir call.2 call.1 file).2) s.file calls := by
  induction calls generalizing s with
  | nil => rfl
  | cons call calls ih => exact ih _

/-! ### Two runs -/

/-- A reader of one record. -/
def readOnly (kind : Staging Record) (record : Record) (text : String) : Result Record :=
  if text = kind.text record then .ok record else .error "expected value at line 1 column 1"

/-- An append that is whole, or one whose write fails. -/
def appending (write : Option WriteFault) : AppendEnv := ⟨.ok (), .ok (), .ok (), write⟩

/-- The first record of a file, appended in full. -/
theorem append_first (hvalid : (kind.validate record).isOk = true) (chainDataDir : String) :
    (kind.append chainDataDir (appending none) record none).1 = .ok () ∧
      kind.read (readOnly kind record) chainDataDir
        (kind.append chainDataDir (appending none) record none).2 = .ok [record] := by
  have happend : kind.append chainDataDir (appending none) record none =
      (.ok (), some (kind.line record ++ [0x0a])) := by
    cases hcheck : kind.validate record with
    | error err =>
      rw [hcheck] at hvalid
      cases hvalid
    | ok u => simp [append, hcheck, appending, Result.context]
  have hfile : (some (kind.line record ++ [0x0a]) : Option Bytes).getD [] =
      lines kind [record] ++ (none : Option Record).elim [] kind.line := by
    simp [lines]
  rw [happend]
  refine ⟨rfl, read_lines hfile (fun other hother => ?_) fun other hother => by cases hother⟩
  rw [show other = record by simpa using hother]
  exact if_pos rfl

theorem readsBack_readOnly {record : Record} (hcalls : ∀ call ∈ calls, call.1 = record) :
    ReadsBack kind (readOnly kind record) calls where
  reads read hread := by
    obtain ⟨call, hcall, rfl⟩ := List.mem_map.mp hread
    rw [hcalls call hcall]
    exact if_pos rfl
  balanced text read hread := by
    unfold readOnly at hread
    split at hread
    · rename_i htext
      rw [htext]
      exact (isRecord_line kind record).balanced
    · cases hread

/-- A whole append, and one that fails with nothing written. -/
def wholeFirst (record : Record) : List (Record × AppendEnv) :=
  [(record, appending none), (record, appending (some ⟨0, "no space left on device"⟩))]

theorem readsBack_wholeFirst (record : Record) :
    ReadsBack kind (readOnly kind record) (wholeFirst record) :=
  readsBack_readOnly (by simp [wholeFirst])

/-- An append that stops behind its first byte, and a whole one. -/
def tornFirst (record : Record) : List (Record × AppendEnv) :=
  [(record, appending (some ⟨1, "no space left on device"⟩)), (record, appending none)]

theorem eachStep_wholeFirst (record : Record) :
    EachStep (exec kind chainDataDir) (Clean kind) start (wholeFirst record) := by
  have hnothing : written kind record (appending (some ⟨0, "no space left on device"⟩)) = [] := by
    rw [written]
    exact ite_self []
  rw [wholeFirst, eachStep_cons, eachStep_cons]
  refine ⟨⟨?_, fun htorn => absurd htorn.2.1 (by simp [appending])⟩,
    ⟨fun _ => hnothing, fun htorn => absurd hnothing htorn.2.2⟩, eachStep_nil⟩
  rintro ⟨byte, hlast, -⟩
  cases hlast

theorem not_eachStep_tornFirst {record : Record} (hvalid : (kind.validate record).isOk) :
    ¬EachStep (exec kind chainDataDir) (Clean kind) start (tornFirst record) := by
  rw [tornFirst, eachStep_cons]
  rintro ⟨hclean, -⟩
  obtain ⟨byte, rest, hbytes, -⟩ := (isRecord_line kind record).front
  have hreaches : Reaches kind record (appending (some ⟨1, "no space left on device"⟩)) :=
    ⟨hvalid, rfl, rfl, rfl⟩
  have hwritten : written kind record (appending (some ⟨1, "no space left on device"⟩)) = [0x7b] := by
    rw [written, if_pos hreaches, hbytes]
    rfl
  have hwhole := hclean.torn ⟨hreaches, rfl, by rw [hwritten]; simp⟩
  rw [hwritten, hbytes] at hwhole
  cases hwhole

theorem not_survives_tornFirst {record : Record} (hvalid : (kind.validate record).isOk) :
    ReadsBack kind (readOnly kind record) (tornFirst record) ∧
      ¬Survives kind (readOnly kind record) chainDataDir
        (run (exec kind chainDataDir) start (tornFirst record)) := by
  have hreads : ReadsBack kind (readOnly kind record) (tornFirst record) :=
    readsBack_readOnly (by simp [tornFirst])
  exact ⟨hreads, fun hsurvives => not_eachStep_tornFirst hvalid ((survives_iff hreads).mp hsurvives)⟩

end

end Staging

open Staging

/-- Each kind of staging file reads back what was appended to it exactly when no append of the run writes
behind an unfinished line, or stops within the JSON of its own. -/
theorem inbound_survives_iff {chainDataDir : String}
    {readTail : String → Result InboundTailRecord} {tails : List (InboundTailRecord × AppendEnv)}
    {readProof : String → Result InboundPaymentProofRecord}
    {proofs : List (InboundPaymentProofRecord × AppendEnv)}
    {readChallenge : String → Result InboundBaoChallengeRecord}
    {challenges : List (InboundBaoChallengeRecord × AppendEnv)}
    (htails : ReadsBack inboundTails readTail tails)
    (hproofs : ReadsBack inboundPaymentProofs readProof proofs)
    (hchallenges : ReadsBack inboundBaoChallenges readChallenge challenges) :
    (Survives inboundTails readTail chainDataDir (run (exec inboundTails chainDataDir) start tails) ↔
      EachStep (exec inboundTails chainDataDir) (Clean inboundTails) start tails) ∧
    (Survives inboundPaymentProofs readProof chainDataDir
        (run (exec inboundPaymentProofs chainDataDir) start proofs) ↔
      EachStep (exec inboundPaymentProofs chainDataDir) (Clean inboundPaymentProofs) start proofs) ∧
    (Survives inboundBaoChallenges readChallenge chainDataDir
        (run (exec inboundBaoChallenges chainDataDir) start challenges) ↔
      EachStep (exec inboundBaoChallenges chainDataDir) (Clean inboundBaoChallenges) start
        challenges) :=
  ⟨survives_iff htails, survives_iff hproofs, survives_iff hchallenges⟩

def exampleTail : InboundTailRecord where
  receivedAt := 1700000000
  frame := ⟨1, 3, .brecciaTail, [0x7b, 0x7d]⟩
  tail := ⟨Bytes32.replicate 7, Bytes32.replicate 8, [0x08], some 800000, none,
    some ⟨Bytes32.replicate 9, "txid"⟩⟩

def exampleProof : InboundPaymentProofRecord where
  receivedAt := 1700000000
  frame := ⟨1, 3, .paymentProof, [0x7b, 0x7d]⟩
  proof := ⟨Bytes32.replicate 7, "challenge_fee",
    expectedEcashReference (Bytes32.replicate 7) "challenge_fee", 25⟩

def exampleChallenge : InboundBaoChallengeRecord where
  receivedAt := 1700000000
  frame := ⟨1, 3, .baoChallenge, [0x7b, 0x7d]⟩
  challenge := ⟨Bytes32.replicate 7, 0, 4⟩

/-- A record is read back when a later append of it writes nothing. -/
theorem inbound_survives_whole :
    Survives inboundTails (readOnly inboundTails exampleTail) "chain"
        (run (exec inboundTails "chain") start (wholeFirst exampleTail)) ∧
      Survives inboundPaymentProofs (readOnly inboundPaymentProofs exampleProof) "chain"
        (run (exec inboundPaymentProofs "chain") start (wholeFirst exampleProof)) ∧
      Survives inboundBaoChallenges (readOnly inboundBaoChallenges exampleChallenge) "chain"
        (run (exec inboundBaoChallenges "chain") start (wholeFirst exampleChallenge)) := by
  obtain ⟨htails, hproofs, hchallenges⟩ := inbound_survives_iff (readsBack_wholeFirst exampleTail)
    (readsBack_wholeFirst exampleProof) (readsBack_wholeFirst exampleChallenge)
  exact ⟨htails.mpr (eachStep_wholeFirst _), hproofs.mpr (eachStep_wholeFirst _),
    hchallenges.mpr (eachStep_wholeFirst _)⟩

/-- A record that is appended behind the first byte of another is lost. -/
theorem not_inbound_survives :
    (ReadsBack inboundTails (readOnly inboundTails exampleTail) (tornFirst exampleTail) ∧
      ¬Survives inboundTails (readOnly inboundTails exampleTail) "chain"
        (run (exec inboundTails "chain") start (tornFirst exampleTail))) ∧
    (ReadsBack inboundPaymentProofs (readOnly inboundPaymentProofs exampleProof)
        (tornFirst exampleProof) ∧
      ¬Survives inboundPaymentProofs (readOnly inboundPaymentProofs exampleProof) "chain"
        (run (exec inboundPaymentProofs "chain") start (tornFirst exampleProof))) ∧
    (ReadsBack inboundBaoChallenges (readOnly inboundBaoChallenges exampleChallenge)
        (tornFirst exampleChallenge) ∧
      ¬Survives inboundBaoChallenges (readOnly inboundBaoChallenges exampleChallenge) "chain"
        (run (exec inboundBaoChallenges "chain") start (tornFirst exampleChallenge))) := by
  have hvalid : (inboundPaymentProofs.validate exampleProof).isOk := by decide +kernel
  exact ⟨not_survives_tornFirst rfl, not_survives_tornFirst hvalid, not_survives_tornFirst rfl⟩

end Lord.Ltp
