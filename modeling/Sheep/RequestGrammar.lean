/-
This file states the grammar of request heads and proves that the parser goes
through every head of the grammar, whatever follows it, with the parts of the
head stored as they stand in the buffer.
-/

import Mathlib.Data.List.Forall2
import Sheep.HeaderLines
import Sheep.RequestParser

namespace Sheep

open ScanLoop

namespace RequestParser

/-! ### The grammar -/

/-- Neither a control character nor the end of anything. -/
abbrev Plain (byte : Byte) : Prop := isHttpControl byte = false

/-- A request line without its end. -/
structure RequestLine where
  method : List Byte
  uri : List Byte
  version : List Byte
deriving DecidableEq, Repr

namespace RequestLine

def bytes (line : RequestLine) : List Byte :=
  line.method ++ SP :: (line.uri ++ SP :: (ascii "HTTP/" ++ (line.version ++ crlf)))

structure WellFormed (line : RequestLine) : Prop where
  method : Token (isAlpha · = true) (isAlpha · = true) line.method
  uri : Token Plain (fun byte => Plain byte ∧ byte ≠ SP) line.uri
  version : Token (isDigit · = true) (fun byte => isDigit byte = true ∨ byte = chr '.') line.version

end RequestLine

/-- A header line of the grammar. Without the optional space the value starts with no space. -/
structure GoodLine (line : HeaderLine) : Prop where
  name : Token Plain (fun byte => Plain byte ∧ byte ≠ chr ':') line.name
  value : Token (fun byte => Plain byte ∧ (line.spaced = false → byte ≠ SP)) Plain line.value

theorem isHttpControl_iff (byte : Byte) :
    isHttpControl byte = true ↔ byte.toNat ≤ 31 ∨ byte.toNat = 127 := by
  have bounded := byte.toNat_lt
  rw [isHttpControl, decide_eq_true_eq, signedChar]
  split <;> omega

theorem Plain.ne_CR {byte : Byte} (plain : Plain byte) : byte ≠ CR := by
  rintro rfl
  exact absurd plain (by decide)

/-! ### The request line -/

/-- The parts of a request line as a request stores them. -/
structure LineRead (line : RequestLine) (before : List Byte) (req : Request) : Prop where
  method : req.method.text before = some line.method
  uri : req.uri.text before = some line.uri
  version : req.version.text before = some line.version

theorem LineRead.append {line : RequestLine} {before : List Byte} {req : Request}
    (read : LineRead line before req) (more : List Byte) : LineRead line (before ++ more) req :=
  ⟨StringView.text_append read.method more, StringView.text_append read.uri more,
    StringView.text_append read.version more⟩

variable {after : List Byte}

/-- The request line goes through and is stored; the other fields stay as they are. -/
theorem runs_requestLine (line : RequestLine) (good : line.WellFormed) (req : Request) :
    Runs (turn after) [] line.bytes (start req) fun before l =>
      LineRead line before l.req ∧ l.state = .versionEndRn ∧ l.remainingContentSize = 0 ∧
      ∃ method uri version, l.req = { req with method, uri, version } := by
  obtain ⟨method, uri, version⟩ := line
  obtain ⟨goodMethod, goodUri, goodVersion⟩ := good
  simp only [RequestLine.bytes] at *
  refine goodMethod.runs_append ⟨.methodStart, 0, 0, req⟩ ?_ ?_ (runs_cons fun ahead => ?_)
  · intro symbol ahead alpha
    simp [turn, start, alpha]
  · intro symbol before ahead alpha
    have notSpace : symbol ≠ SP := by
      rintro rfl
      exact absurd alpha (by decide)
    simp [turn, alpha, notSpace]
  simp only [turn, if_true, onward_go]
  refine goodUri.runs_append ⟨.uriStart, method.length + 1, 0,
    { req with method := .range 0 method.length }⟩ ?_ ?_ (runs_cons fun ahead => ?_)
  · intro symbol ahead plain
    simp [turn, plain]
  · rintro symbol before ahead ⟨plain, notSpace⟩
    simp [turn, plain, notSpace]
  simp only [turn, if_true, onward_go]
  -- the name `HTTP`, compared at the slash
  generalize split : [] ++ method ++ [SP] ++ uri ++ [SP] = read
  have protocol : Token (· = chr 'H') (fun byte => isAlpha byte = true ∧ byte ≠ chr '/')
      (ascii "HTTP") := by decide
  have slash : ascii "HTTP/" = ascii "HTTP" ++ [chr '/'] := by decide
  rw [slash, List.append_assoc]
  refine protocol.runs_append ⟨.httpStart, read.length, 0, { req with
    method := .range 0 method.length
    uri := .range (method.length + 1) ([] ++ method ++ [SP] ++ uri).length }⟩ ?_ ?_
    (runs_cons fun ahead => ?_)
  · rintro symbol ahead rfl
    simp [turn]
  · rintro symbol before ahead ⟨alpha, notSlash⟩
    simp [turn, alpha, notSlash]
  have named : (StringView.range read.length (read ++ ascii "HTTP").length).same
      (read ++ ascii "HTTP") (.elsewhere (ascii "HTTP")) = true := by
    refine (StringView.same_iff_of_text ?_ rfl).mpr rfl
    exact StringView.text_range read (ascii "HTTP") [] (by simp) rfl rfl
  simp only [turn, if_true, named, onward_go]
  refine goodVersion.runs_append ⟨.versionStart, (read ++ ascii "HTTP" ++ [chr '/']).length, 0,
    { req with
      method := .range 0 method.length
      uri := .range (method.length + 1) ([] ++ method ++ [SP] ++ uri).length }⟩ ?_ ?_
    (runs_cons fun ahead => ?_)
  · intro symbol ahead digit
    simp [turn, digit]
  · intro symbol before ahead more
    have notEnd : symbol ≠ CR := by
      rintro rfl
      exact absurd more (by decide)
    rcases more with digit | dot
    · simp [turn, digit, notEnd]
    · rw [dot] at notEnd
      simp [turn, dot, notEnd]
  simp only [turn, if_true, onward_go]
  refine runs_cons fun ahead => ?_
  simp only [turn, if_true, onward_go]
  refine runs_nil ⟨⟨?_, ?_, ?_⟩, rfl, rfl, _, _, _, rfl⟩
  · exact StringView.text_range [] method
      (SP :: uri ++ [SP] ++ ascii "HTTP" ++ [chr '/'] ++ version ++ crlf) (by simp [← split]) rfl
      rfl
  · exact StringView.text_range (method ++ [SP]) uri
      (SP :: ascii "HTTP" ++ [chr '/'] ++ version ++ crlf) (by simp [← split]) (by simp) (by simp)
  · exact StringView.text_range (read ++ ascii "HTTP" ++ [chr '/']) version crlf (by simp) rfl rfl

/-! ### Header lines -/

/-- The text `find_boundary` selects in a multipart value. Without the tag it starts eight bytes
in. -/
def boundaryText (value : List Byte) : List Byte :=
  value.drop (match find (ascii "boundary=") value with
    | some pos => pos + 9
    | none => 8)

/-- The boundary a header line announces. -/
def pickBoundary (line : HeaderLine) : Option (List Byte) :=
  if line.name = ascii "Content-Type" ∧ isMultipartInHeaderValue line.value = true then
    some (boundaryText line.value)
  else none

/-- The length text a header line announces. -/
def pickLength (line : HeaderLine) : Option (List Byte) :=
  if line.name = ascii "Content-Length" then some line.value else none

/-- The boundary in force after some header lines: the last one announced. -/
def boundaryOf (lines : List HeaderLine) : Option (List Byte) :=
  (lines.filterMap pickBoundary).getLast?

/-- The length text in force after some header lines: the last one announced. -/
def lengthOf (lines : List HeaderLine) : Option (List Byte) :=
  (lines.filterMap pickLength).getLast?

/-- What a length text made of digits is converted to. -/
def readSize (digits : List Byte) : UInt64 :=
  UInt64.ofInt ((min (2 ^ 63 - 1) (decimalValue digits) : Int).bmod (2 ^ 32))

theorem boundaryOf_snoc (lines : List HeaderLine) (line : HeaderLine) :
    boundaryOf (lines ++ [line]) = (pickBoundary line).or (boundaryOf lines) := by
  cases picked : pickBoundary line with
  | none => simp [boundaryOf, picked]
  | some boundary => simp [boundaryOf, picked]

theorem lengthOf_snoc (lines : List HeaderLine) (line : HeaderLine) :
    lengthOf (lines ++ [line]) = (pickLength line).or (lengthOf lines) := by
  cases picked : pickLength line with
  | none => simp [lengthOf, picked]
  | some text => simp [lengthOf, picked]

/-- The view `find_boundary` returns denotes the boundary text. -/
theorem text_findBoundary (left value right : List Byte)
    (multipart : isMultipartInHeaderValue value = true) :
    (findBoundary value left.length (left ++ value).length).text (left ++ value ++ right) =
      some (boundaryText value) := by
  have within : (match find (ascii "boundary=") value with
      | some pos => pos + 9
      | none => 8) ≤ value.length := by
    cases found : find (ascii "boundary=") value with
    | some pos =>
      rcases length_le_of_find found with inside | empty
      · exact inside
      · exact absurd empty (by decide)
    | none =>
      obtain ⟨pos, foundType⟩ := Option.isSome_iff_exists.mp multipart
      rcases length_le_of_find foundType with inside | empty
      · have length : (ascii "multipart/form-data").length = 19 := by decide
        show 8 ≤ value.length
        omega
      · exact absurd empty (by decide)
  unfold findBoundary boundaryText
  generalize shift : (match find (ascii "boundary=") value with
      | some pos => pos + 9
      | none => 8) = offset at within ⊢
  refine StringView.text_range (left ++ value.take offset) (value.drop offset) right ?_ ?_ ?_
  · rw [List.append_assoc left (value.take offset), List.take_append_drop]
  · rw [List.length_append, List.length_take, min_eq_left within, ← shift]
    cases find (ascii "boundary=") value with
    | some pos => simp only [Nat.cast_add, Nat.cast_ofNat]; omega
    | none => simp only [Nat.cast_add, Nat.cast_ofNat]; omega
  · rw [List.append_assoc, List.take_append_drop]

/-- A stored header denotes a header line. -/
structure HeaderRead (before : List Byte) (header : Request.Header) (line : HeaderLine) : Prop where
  name : header.name.text before = some line.name
  value : header.value.text before = some line.value

/-- The request after its request line and some header lines. -/
structure HeadRead (line : RequestLine) (lines : List HeaderLine) (before : List Byte)
    (remaining : UInt64) (req : Request) : Prop where
  line : LineRead line before req
  headers : List.Forall₂ (HeaderRead before) req.headers lines
  multipart : req.isMultipart = (boundaryOf lines).isSome
  boundary : req.partBoundary.text before = some ((boundaryOf lines).getD [])
  content : req.content = .empty
  parts : req.parts = []
  noLength : lengthOf lines = none → remaining = 0
  length : ∀ digits, lengthOf lines = some digits → digits ≠ [] →
    (∀ byte ∈ digits, isDigit byte = true) →
    remaining = readSize digits ∧ req.contentSize = readSize digits

theorem HeaderRead.append {before : List Byte} {header : Request.Header} {line : HeaderLine}
    (read : HeaderRead before header line) (more : List Byte) :
    HeaderRead (before ++ more) header line :=
  ⟨StringView.text_append read.name more, StringView.text_append read.value more⟩

/-- Reading on keeps what is read. -/
theorem HeadRead.append {line : RequestLine} {lines : List HeaderLine} {before : List Byte}
    {remaining : UInt64} {req : Request} (read : HeadRead line lines before remaining req)
    (more : List Byte) : HeadRead line lines (before ++ more) remaining req where
  line := read.line.append more
  headers := List.Forall₂.imp (fun _ _ stored => stored.append more) read.headers
  multipart := read.multipart
  boundary := StringView.text_append read.boundary more
  content := read.content
  parts := read.parts
  noLength := read.noLength
  length := read.length

/-- Ending a header value adds the header line to what is read. -/
theorem finishHeaderValue_read {line : RequestLine} {lines : List HeaderLine}
    {before : List Byte} {remaining : UInt64} {req : Request} (colon rest : List Byte)
    (header : HeaderLine)
    (read : HeadRead line lines before remaining req) :
    (finishHeaderValue (before ++ header.name ++ colon ++ header.value ++ CR :: rest)
      (before ++ header.name ++ colon ++ header.value)
      (before ++ header.name ++ colon ++ header.value).length
      ⟨.headerValueStart, (before ++ header.name ++ colon).length, remaining,
        { req with headers := req.headers ++
          [{ name := .range before.length (before ++ header.name).length }] }⟩).Onward fun l' =>
      l'.state = .headerR ∧
      HeadRead line (lines ++ [header]) (before ++ header.name ++ colon ++ header.value)
        l'.remainingContentSize l'.req := by
  have name : (StringView.range before.length (before ++ header.name).length).text
      (before ++ header.name ++ colon ++ header.value) = some header.name :=
    StringView.text_range before header.name (colon ++ header.value) (by simp) rfl rfl
  have value : (StringView.range (before ++ header.name ++ colon).length
      (before ++ header.name ++ colon ++ header.value).length).text
      (before ++ header.name ++ colon ++ header.value) = some header.value :=
    StringView.text_range (before ++ header.name ++ colon) header.value [] (by simp) rfl rfl
  have later : HeadRead line lines (before ++ header.name ++ colon ++ header.value)
      remaining req := by
    have grown := read.append (header.name ++ colon ++ header.value)
    simpa using grown
  have isType : (StringView.range before.length (before ++ header.name).length).same
      (before ++ header.name ++ colon ++ header.value) (.elsewhere (ascii "Content-Type")) = true ↔
      header.name = ascii "Content-Type" := StringView.same_iff_of_text name rfl
  have isLength : (StringView.range before.length (before ++ header.name).length).same
      (before ++ header.name ++ colon ++ header.value)
      (.elsewhere (ascii "Content-Length")) = true ↔
      header.name = ascii "Content-Length" := StringView.same_iff_of_text name rfl
  have stored : List.Forall₂ (HeaderRead (before ++ header.name ++ colon ++ header.value))
      (req.headers ++ [⟨.range before.length (before ++ header.name).length,
        .range (before ++ header.name ++ colon).length
          (before ++ header.name ++ colon ++ header.value).length⟩])
      (lines ++ [header]) :=
    List.rel_append later.headers (List.Forall₂.cons ⟨name, value⟩ List.Forall₂.nil)
  have memory : (before ++ header.name ++ colon ++ header.value ++ CR :: rest).drop
      ((before ++ header.name ++ colon).length : Int).toNat = header.value ++ CR :: rest := by
    rw [Int.toNat_natCast, List.append_assoc (before ++ header.name ++ colon), List.drop_left]
  unfold finishHeaderValue
  simp only [Request.setLastValue, List.getLast?_append, List.getLast?_singleton, Option.some_or,
    Option.map_some, List.dropLast_concat, value, Option.getD_some]
  by_cases multipart : header.name = ascii "Content-Type" ∧
      isMultipartInHeaderValue header.value = true
  · have announces : pickBoundary header = some (boundaryText header.value) := if_pos multipart
    have noLength : pickLength header = none := by
      refine if_neg ?_
      rw [multipart.1]
      decide
    rw [if_pos (by rw [isType.mpr multipart.1, multipart.2]; rfl)]
    refine ⟨rfl, ⟨later.line.method, later.line.uri, later.line.version⟩, stored, ?_, ?_,
      later.content, later.parts, ?_, ?_⟩
    · rw [boundaryOf_snoc, announces]
      rfl
    · rw [boundaryOf_snoc, announces]
      have found := text_findBoundary (before ++ header.name ++ colon) header.value [] multipart.2
      rwa [List.append_nil] at found
    · rw [lengthOf_snoc, noLength]
      exact later.noLength
    · rw [lengthOf_snoc, noLength]
      exact later.length
  · have noBoundary : pickBoundary header = none := if_neg multipart
    rw [if_neg (by rw [Bool.and_eq_true, isType]; exact multipart)]
    by_cases sized : header.name = ascii "Content-Length"
    · have announces : pickLength header = some header.value := if_pos sized
      rw [if_pos (isLength.mpr sized), memory]
      refine ⟨rfl, ⟨later.line.method, later.line.uri, later.line.version⟩, stored, ?_, ?_,
        later.content, later.parts, ?_, ?_⟩
      · rw [boundaryOf_snoc, noBoundary]
        exact later.multipart
      · rw [boundaryOf_snoc, noBoundary]
        exact later.boundary
      · rw [lengthOf_snoc, announces]
        intro none
        cases none
      · rw [lengthOf_snoc, announces]
        intro digits same nonempty allDigits
        injection same with same
        subst same
        rw [readSize, ← atoi_digits nonempty allDigits (by decide : ¬ isDigit CR = true)]
        exact ⟨rfl, rfl⟩
    · have noLength : pickLength header = none := if_neg sized
      rw [if_neg (fun same => sized (isLength.mp same))]
      refine ⟨rfl, ⟨later.line.method, later.line.uri, later.line.version⟩, stored, ?_, ?_,
        later.content, later.parts, ?_, ?_⟩
      · rw [boundaryOf_snoc, noBoundary]
        exact later.multipart
      · rw [boundaryOf_snoc, noBoundary]
        exact later.boundary
      · rw [lengthOf_snoc, noLength]
        exact later.noLength
      · rw [lengthOf_snoc, noLength]
        exact later.length

/-- A header line of the grammar goes through up to the end of its value. -/
theorem runs_headerOpen {before : List Byte} {l : Locals} {header : HeaderLine}
    (good : GoodLine header) (state : l.state = .versionEndRn ∨ l.state = .headerRn) :
    Runs (turn after) before (header.name ++ (colonText header.spaced ++ header.value)) l
      fun _ l' => l' = ⟨.headerValueStart,
        (before ++ header.name ++ colonText header.spaced).length, l.remainingContentSize,
        { l.req with headers := l.req.headers ++
          [{ name := .range before.length (before ++ header.name).length }] }⟩ := by
  refine good.name.runs_append ⟨.headerStart, before.length, l.remainingContentSize, l.req⟩ ?_ ?_
    (runs_cons fun ahead => ?_)
  · intro symbol ahead plain
    have notEnd := Plain.ne_CR plain
    rcases state with state | state <;> simp [turn, state, plain, notEnd]
  · rintro symbol before' ahead ⟨plain, notColon⟩
    simp [turn, plain, notColon]
  simp only [turn, if_true, onward_go]
  -- the value, with or without the space before it
  have loops (l' : Locals) (valued : l'.state = .headerValueStart) (symbol : Byte)
      (before' ahead : List Byte) (plain : Plain symbol) :
      (turn after before' symbol ahead l').Onward (· = l') := by
    have notEnd := Plain.ne_CR plain
    simp [turn, valued, plain, notEnd]
  cases spaced : header.spaced with
  | true =>
    refine runs_cons fun ahead' => ?_
    simp only [turn, if_true, onward_go]
    have shift : before ++ header.name ++ [chr ':'] ++ [SP] =
        before ++ header.name ++ colonText true := by simp [colonText]
    rw [shift]
    refine good.value.runs _ (fun symbol ahead plain => ?_) (loops _ rfl) rfl
    simp [turn, plain.1]
  | false =>
    refine good.value.runs _ (fun symbol ahead plain => ?_) (loops _ rfl) rfl
    simp [turn, plain.1, plain.2 spaced, colonText]

/-- A header line of the grammar goes through and is added to what is read. -/
theorem runs_headerLine {line : RequestLine} {lines : List HeaderLine} {before : List Byte}
    {l : Locals} {header : HeaderLine} (good : GoodLine header)
    (read : HeadRead line lines before l.remainingContentSize l.req)
    (state : l.state = .versionEndRn ∨ l.state = .headerRn) :
    Runs (turn after) before header.bytes l fun before' l' =>
      l'.state = .headerRn ∧
      HeadRead line (lines ++ [header]) before' l'.remainingContentSize l'.req := by
  have shape : header.bytes = header.name ++ (colonText header.spaced ++ header.value) ++ crlf := by
    simp [HeaderLine.bytes]
  rw [shape]
  refine (runs_headerOpen good state).append ?_
  rintro l' rfl
  refine runs_cons fun ahead => ?_
  simp only [turn, if_true]
  have finished := finishHeaderValue_read (colonText header.spaced) (ahead ++ after) header read
  rw [List.append_assoc (before ++ header.name), List.append_assoc before] at finished
  rw [List.append_assoc _ _ after, List.cons_append]
  refine finished.mono fun l'' reached => runs_cons fun ahead' => ?_
  obtain ⟨_, prevIt, remaining, req⟩ := l''
  obtain ⟨rfl, readMore⟩ := reached
  simp only [turn, if_true, onward_go]
  refine runs_nil ⟨rfl, ?_⟩
  have grown := readMore.append [CR, LF]
  simpa [crlf] using grown

/-- A request head: the request line, the header lines, and the empty line. -/
structure RequestHead where
  line : RequestLine
  lines : List HeaderLine
deriving DecidableEq, Repr

namespace RequestHead

def bytes (head : RequestHead) : List Byte :=
  head.line.bytes ++ (headerBytes head.lines ++ crlf)

structure WellFormed (head : RequestHead) : Prop where
  line : head.line.WellFormed
  lines : ∀ header ∈ head.lines, GoodLine header

end RequestHead

theorem runs_headerLines {line : RequestLine} {lines : List HeaderLine} {before : List Byte}
    {l : Locals} (more : List HeaderLine) (good : ∀ header ∈ more, GoodLine header)
    (read : HeadRead line lines before l.remainingContentSize l.req)
    (state : l.state = .versionEndRn ∨ l.state = .headerRn) :
    Runs (turn after) before (headerBytes more) l fun before' l' =>
      (more = [] ∧ l'.state = l.state ∨ more ≠ [] ∧ l'.state = .headerRn) ∧
      HeadRead line (lines ++ more) before' l'.remainingContentSize l'.req := by
  induction more generalizing lines before l with
  | nil => exact runs_nil ⟨Or.inl ⟨rfl, rfl⟩, by rwa [List.append_nil]⟩
  | cons header rest inductionHypothesis =>
    refine Runs.append (runs_headerLine (good header List.mem_cons_self) read state) ?_
    rintro l' ⟨state', read'⟩
    refine (inductionHypothesis (fun other member => good other (List.mem_cons_of_mem _ member))
      read' (Or.inr state')).mono ?_
    rintro l'' ⟨ends, read''⟩
    refine ⟨Or.inr ⟨List.cons_ne_nil _ _, ?_⟩, by simpa using read''⟩
    rcases ends with ⟨_, same⟩ | ⟨_, same⟩
    · rw [same, state']
    · exact same

theorem headRead_start {line : RequestLine} {before : List Byte} {l : Locals} {size : UInt64}
    (read : LineRead line before l.req) (remaining : l.remainingContentSize = 0)
    (rest : ∃ method uri version, l.req = { Request.fresh size with method, uri, version }) :
    HeadRead line [] before l.remainingContentSize l.req := by
  obtain ⟨method, uri, version, same⟩ := rest
  refine ⟨read, ?_, ?_, ?_, ?_, ?_, fun _ => remaining, fun digits found => ?_⟩
  · rw [same]; exact List.Forall₂.nil
  · rw [same]; rfl
  · rw [same]; rfl
  · rw [same]; rfl
  · rw [same]; rfl
  · cases found

/-- Everything of a request head but its last byte goes through. -/
theorem runs_head (after : List Byte) (head : RequestHead) (good : head.WellFormed)
    (size : UInt64) :
    Runs (turn after) [] (head.line.bytes ++ (headerBytes head.lines ++ [CR]))
      (start (.fresh size)) fun before l =>
        l.state = (if head.lines = [] then .versionEndRnr else .headerRnr) ∧
        HeadRead head.line head.lines before l.remainingContentSize l.req := by
  refine Runs.append (runs_requestLine head.line good.line (.fresh size)) ?_
  rintro l ⟨read, state, remaining, rest⟩
  have readLine : HeadRead head.line [] ([] ++ head.line.bytes) l.remainingContentSize l.req :=
    headRead_start read remaining rest
  refine Runs.append (runs_headerLines head.lines good.lines readLine (Or.inl state)) ?_
  rintro l' ⟨ends, readLines⟩
  refine runs_cons fun ahead => ?_
  obtain ⟨_, prevIt, remaining', req⟩ := l'
  rcases ends with ⟨empty, same⟩ | ⟨nonempty, same⟩
  · obtain rfl := same.trans state
    simp only [turn, if_true, onward_go]
    exact runs_nil ⟨by rw [if_pos empty], by simpa using readLines.append [CR]⟩
  · obtain rfl := same
    simp only [turn, if_true, onward_go]
    exact runs_nil ⟨by rw [if_neg nonempty], by simpa using readLines.append [CR]⟩

/-- A request head with header lines goes through where something follows it. -/
theorem feed_head (after : List Byte) (head : RequestHead) (good : head.WellFormed)
    (nonempty : head.lines ≠ []) (size : UInt64) {rest : List Byte} (restNonempty : rest ≠ []) :
    ∃ l, feed (turn after) [] head.bytes rest 0 (start (.fresh size)) = .inside 0 l ∧
      l.state = .headerRnrn ∧
      HeadRead head.line head.lines head.bytes l.remainingContentSize l.req := by
  have shape : head.bytes = (head.line.bytes ++ (headerBytes head.lines ++ [CR])) ++ [LF] := by
    simp [RequestHead.bytes]
  obtain ⟨l, inside, state, read⟩ := (runs_head after head good size).feed ([LF] ++ rest)
  rw [if_neg nonempty] at state
  refine ⟨{ l with state := .headerRnrn }, ?_, rfl, ?_⟩
  · rw [shape, feed_append_of_inside inside, feed_cons_go]
    · rfl
    · rw [turn]
      simp only [state, if_true]
      rw [if_neg (by simpa using restNonempty)]
  · rw [shape]
    exact read.append [LF]

/-- The boundary in force is part of the head. -/
theorem length_le_of_boundaryOf {lines : List HeaderLine} {boundary : List Byte}
    (announced : boundaryOf lines = some boundary) :
    boundary.length ≤ (headerBytes lines).length := by
  obtain ⟨header, member, picked⟩ := List.mem_filterMap.mp (List.mem_of_getLast? announced)
  have inside : header.bytes.length ≤ (headerBytes lines).length := by
    refine List.Sublist.length_le ?_
    rw [headerBytes, List.flatMap_def]
    exact List.sublist_flatten_of_mem (List.mem_map_of_mem member)
  unfold pickBoundary at picked
  split at picked
  · injection picked with same
    rw [← same, boundaryText, List.length_drop]
    have value : header.value.length ≤ header.bytes.length := by
      simp only [HeaderLine.bytes, List.length_append, List.length_cons]
      omega
    omega
  · cases picked

/-- How a run that stays inside or leaves ends `parse`. -/
theorem parse_of_inside {req : Request} {buf : List Byte} {l : Locals}
    (inside : feed (turn after) [] buf [] 0 (start req) = .inside 0 l) :
    parse after req buf = .returned .inCompleted l.req := by
  rw [parse, run, inside]

theorem parse_of_left {req : Request} {buf : List Byte} {outcome : Outcome}
    (left : feed (turn after) [] buf [] 0 (start req) = .left outcome) :
    parse after req buf = outcome := by
  rw [parse, run, left]

/-- A head alone is completed and read, whatever its method. -/
theorem parse_head (after : List Byte) (head : RequestHead) (good : head.WellFormed)
    (size : UInt64) :
    ∃ before, ∃ l : Locals, parse after (.fresh size) head.bytes = .returned .completed l.req ∧
      head.bytes = before ++ [LF] ∧
      HeadRead head.line head.lines before l.remainingContentSize l.req := by
  have shape : head.bytes = (head.line.bytes ++ (headerBytes head.lines ++ [CR])) ++ [LF] := by
    simp [RequestHead.bytes]
  obtain ⟨l, inside, state, read⟩ := (runs_head after head good size).feed [LF]
  refine ⟨_, l, parse_of_left ?_, shape, read⟩
  rw [shape, feed_append_of_inside (by rw [List.append_nil]; exact inside), feed_cons_leave]
  rw [turn]
  split at state
  · simp only [state, if_true]
    rfl
  · simp only [state, if_true, List.append_nil]

end RequestParser

end Sheep
