/-
This file states the grammar of response heads and proves that the parser goes
through every head of the grammar, whatever follows it. What it takes for the
length of the body is read at the value of the last `Content-Length` header, and
on from there.
-/

import Mathlib.Data.List.Forall2
import Sheep.HeaderLines
import Sheep.ResponseParser

namespace Sheep

open ScanLoop

namespace ResponseParser

/-! ### The grammar -/

/-- No control character. Bytes from `0x80` on count as control characters here. -/
abbrev Plain (byte : Byte) : Prop := isHttpControl byte = false

/-- A status line without its end. -/
structure StatusLine where
  version : List Byte
  code : List Byte
  reason : List Byte
deriving DecidableEq, Repr

namespace StatusLine

def bytes (line : StatusLine) : List Byte :=
  ascii "HTTP/" ++ (line.version ++ SP :: (line.code ++ SP :: (line.reason ++ crlf)))

structure WellFormed (line : StatusLine) : Prop where
  version : Token (isDigit · = true) (fun byte => isDigit byte = true ∨ byte = chr '.') line.version
  code : Token (isDigit · = true) (isDigit · = true) line.code
  reason : Token Plain Plain line.reason
  two : 2 ≤ line.reason.length

end StatusLine

/-- A header line the parser accepts. -/
structure GoodLine (line : HeaderLine) : Prop where
  name : Token Plain (fun byte => Plain byte ∧ byte ≠ chr ':') line.name
  value : Token (fun byte => Plain byte ∧ (line.spaced = false → byte ≠ SP)) Plain line.value

/-- A response head: the status line, bytes that are skipped, the header lines, and the empty
line. -/
structure ResponseHead where
  line : StatusLine
  junk : List Byte
  lines : List HeaderLine
deriving DecidableEq, Repr

namespace ResponseHead

def bytes (head : ResponseHead) : List Byte :=
  head.line.bytes ++ head.junk ++ headerBytes head.lines ++ crlf

/-- The first header name starts with an alphanumeric; up to there other bytes are skipped. -/
structure WellFormed (head : ResponseHead) : Prop where
  line : head.line.WellFormed
  junk : ∀ byte ∈ head.junk, byte ≠ CR ∧ isAlnum byte = false
  lines : ∀ header ∈ head.lines, GoodLine header
  alnum : ∀ header ∈ head.lines.head?, ∀ byte ∈ header.name.head?, isAlnum byte = true

end ResponseHead

theorem isHttpControl_iff (byte : Byte) :
    isHttpControl byte = true ↔ byte.toNat ≤ 31 ∨ 127 ≤ byte.toNat := by
  have bounded := byte.toNat_lt
  rw [isHttpControl, decide_eq_true_eq, signedChar]
  split <;> omega

theorem Plain.ne_CR {byte : Byte} (plain : Plain byte) : byte ≠ CR := by
  rintro rfl
  exact absurd plain (by decide)

theorem plain_of_isAlnum {byte : Byte} (alnum : isAlnum byte = true) : Plain byte := by
  refine Bool.eq_false_iff.mpr fun control => ?_
  rw [isHttpControl_iff] at control
  rcases Bool.or_eq_true_iff.mp alnum with alpha | digit
  · rw [isAlpha_iff] at alpha
    omega
  · rw [isDigit_iff] at digit
    omega

/-! ### The status line -/

/-- The parts of a status line as a response stores them. -/
structure StatusRead (line : StatusLine) (before : List Byte) (res : Response) : Prop where
  version : res.version.text before = some line.version
  codestr : res.codestr.text before = some line.code
  status : res.status.text before = some line.reason

theorem StatusRead.append {line : StatusLine} {before : List Byte} {res : Response}
    (read : StatusRead line before res) (more : List Byte) : StatusRead line (before ++ more) res :=
  ⟨StringView.text_append read.version more, StringView.text_append read.codestr more,
    StringView.text_append read.status more⟩

/-- The response while its status line is read. -/
def OnlyStatus (l : Locals) : Prop :=
  l.contentLength = 0 ∧ ∃ statusCode codestr status version,
    l.res = { statusCode, codestr, status, version }

variable {after : List Byte}

/-- The word before the version. -/
theorem runs_protocol :
    Runs (turn after) [] (ascii "HTTP/") (start .fresh) fun _ l =>
      l = { start .fresh with state := .httpEnd } := by
  have letters : ascii "HTTP/" = [chr 'H', chr 'T', chr 'T', chr 'P', chr '/'] := rfl
  rw [letters]
  refine runs_cons fun ahead => ?_
  simp only [turn, start, ne_eq, not_true_eq_false, if_false, onward_go]
  refine runs_cons fun ahead => ?_
  simp only [turn, if_true, onward_go]
  refine runs_cons fun ahead => ?_
  simp only [turn, if_true, onward_go]
  refine runs_cons fun ahead => ?_
  simp only [turn, if_true, onward_go]
  refine runs_cons fun ahead => ?_
  simp only [turn, if_true, onward_go]
  exact runs_nil rfl

theorem isAllDigit_of_token {text : List Byte}
    (token : Token (isDigit · = true) (isDigit · = true) text) : isAllDigit text = true :=
  List.all_eq_true.mpr token.forall_mem

/-- The version of a status line. -/
theorem runs_version {version before : List Byte} {l : Locals} (state : l.state = .httpEnd)
    (good : Token (isDigit · = true) (fun byte => isDigit byte = true ∨ byte = chr '.') version) :
    Runs (turn after) before (version ++ [SP]) l fun _ l' => l' = { l with
      state := .versionEnd
      prevIt := before.length
      res := { l.res with version := .range before.length (before ++ version).length } } := by
  refine good.runs_append { l with state := .versionStart, prevIt := before.length } ?_ ?_
    (runs_cons fun ahead => ?_)
  · intro symbol ahead digit
    simp [turn, state, digit]
  · rintro symbol before' ahead (digit | dot)
    · simp [turn, digit]
    · simp [turn, dot]
  have notDigit : isDigit SP = false := by decide
  have notDot : SP ≠ chr '.' := by decide
  simp only [turn, notDigit, notDot, decide_false, Bool.or_self, Bool.false_eq_true, if_false,
    if_true, onward_go]
  exact runs_nil rfl

/-- What a text of digits before a space is converted to. -/
def codeNumber (code : List Byte) : Int :=
  (min (2 ^ 63 - 1) (decimalValue code) : Int).bmod (2 ^ 32)

/-- The status code of a status line. -/
theorem runs_code {code before : List Byte} {l : Locals} (state : l.state = .versionEnd)
    (good : Token (isDigit · = true) (isDigit · = true) code) :
    Runs (turn after) before (code ++ [SP]) l fun _ l' => l' = { l with
      state := .statusCodeEnd
      prevIt := before.length
      res := { l.res with
        codestr := .range before.length (before ++ code).length
        statusCode := codeNumber code } } := by
  refine good.runs_append { l with state := .statusCodeStart, prevIt := before.length } ?_ ?_
    (runs_cons fun ahead => ?_)
  · intro symbol ahead digit
    simp [turn, state, digit]
  · intro symbol before' ahead digit
    simp [turn, digit]
  have notDigit : isDigit SP = false := by decide
  have text : (StringView.range before.length (before ++ code).length).text (before ++ code) =
      some code := StringView.text_range before code [] (by simp) rfl rfl
  have number : atoi ((before ++ code ++ SP :: ahead ++ after).drop (before.length : Int).toNat) =
      codeNumber code := by
    rw [Int.toNat_natCast, List.append_assoc, List.append_assoc, List.drop_left,
      List.cons_append, atoi_digits good.ne_nil good.forall_mem (by decide)]
    rfl
  simp only [turn, notDigit, Bool.false_eq_true, if_false, if_true, text, Option.getD_some,
    isAllDigit_of_token good, number, onward_go]
  exact runs_nil rfl

/-- The reason phrase of a status line. -/
theorem runs_reason {reason before : List Byte} {l : Locals} (state : l.state = .statusCodeEnd)
    (good : Token Plain Plain reason) (two : 2 ≤ reason.length) :
    Runs (turn after) before (reason ++ crlf) l fun _ l' => l' = { l with
      state := .statusMsgEndRn
      prevIt := before.length
      res := { l.res with status := .range before.length (before ++ reason).length } } := by
  obtain ⟨first, others, rfl⟩ := List.exists_cons_of_ne_nil good.ne_nil
  have longer : others ≠ [] := by
    rintro rfl
    exact absurd two (by simp)
  obtain ⟨second, rest, rfl⟩ := List.exists_cons_of_ne_nil longer
  have plain := good.forall_mem
  refine runs_cons fun ahead => ?_
  simp only [turn, state, plain first List.mem_cons_self, Bool.not_false, if_true, onward_go]
  refine runs_cons fun ahead => ?_
  simp only [turn, plain second (by simp), Bool.not_false, if_true, onward_go]
  have inside : Runs (turn after) (before ++ [first] ++ [second]) rest
      { l with state := .statusMsg, prevIt := before.length } fun _ l' =>
        l' = { l with state := .statusMsg, prevIt := before.length } := by
    refine runs_loop (fun symbol member before' ahead' => ?_) rfl
    have plainSymbol := plain symbol (by simp [member])
    have notEnd := Plain.ne_CR plainSymbol
    simp [turn, notEnd, plainSymbol]
  refine Runs.append inside ?_
  rintro l' rfl
  have shift : before ++ [first] ++ [second] ++ rest = before ++ first :: second :: rest := by simp
  rw [shift]
  refine runs_cons fun ahead => ?_
  simp only [turn, if_true, onward_go]
  refine runs_cons fun ahead => ?_
  simp only [turn, if_true, onward_go]
  exact runs_nil rfl

/-- The status line goes through and is stored. -/
theorem runs_statusLine (line : StatusLine) (good : line.WellFormed) :
    Runs (turn after) [] line.bytes (start .fresh) fun before l =>
      l.state = .statusMsgEndRn ∧ StatusRead line before l.res ∧ OnlyStatus l ∧
      l.res.statusCode = codeNumber line.code := by
  obtain ⟨version, code, reason⟩ := line
  have shape : StatusLine.bytes ⟨version, code, reason⟩ = ascii "HTTP/" ++ ((version ++ [SP]) ++
      ((code ++ [SP]) ++ (reason ++ crlf))) := by simp [StatusLine.bytes]
  rw [shape]
  refine Runs.append runs_protocol ?_
  rintro _ rfl
  refine Runs.append (runs_version rfl good.version) ?_
  rintro _ rfl
  refine Runs.append (runs_code rfl good.code) ?_
  rintro _ rfl
  refine (runs_reason rfl good.reason good.two).mono ?_
  rintro _ rfl
  refine ⟨rfl, ⟨?_, ?_, ?_⟩, ⟨rfl, _, _, _, _, rfl⟩, rfl⟩
  · exact StringView.text_range (ascii "HTTP/") version
      (SP :: code ++ SP :: reason ++ crlf) (by simp) (by simp) (by simp)
  · exact StringView.text_range (ascii "HTTP/" ++ version ++ [SP]) code
      (SP :: reason ++ crlf) (by simp) (by simp) (by simp)
  · exact StringView.text_range (ascii "HTTP/" ++ version ++ [SP] ++ code ++ [SP]) reason crlf
      (by simp) (by simp) (by simp)

/-! ### Header lines -/

/-- The header line says that the body comes in chunks. -/
def announcesChunks (line : HeaderLine) : Bool :=
  line.name == ascii "Transfer-Encoding" && line.value == ascii "chunked"

/-- Where the value of a header line starts. -/
def valueOffset (line : HeaderLine) : Nat :=
  line.name.length + 1 + if line.spaced then 1 else 0

/-- The length the parser has in mind after some header lines that start at `start`: what `atoi`
finds in memory at the value of the last `Content-Length`. -/
def announcedLength (memory : List Byte) : Nat → List HeaderLine → Int → Int
  | _, [], current => current
  | start, line :: rest, current =>
      announcedLength memory (start + line.bytes.length) rest
        (if line.name = ascii "Content-Length" then atoi (memory.drop (start + valueOffset line))
        else current)

theorem announcedLength_snoc (memory : List Byte) (start : Nat) (lines : List HeaderLine)
    (line : HeaderLine) (current : Int) :
    announcedLength memory start (lines ++ [line]) current =
      if line.name = ascii "Content-Length" then
        atoi (memory.drop (start + (headerBytes lines).length + valueOffset line))
      else announcedLength memory start lines current := by
  induction lines generalizing start current with
  | nil => rfl
  | cons first rest inductionHypothesis =>
    rw [List.cons_append, announcedLength, inductionHypothesis, announcedLength, headerBytes_cons,
      List.length_append, ← Nat.add_assoc]

/-- A stored header denotes a header line. -/
structure HeaderRead (before : List Byte) (header : Response.Header) (line : HeaderLine) :
    Prop where
  name : header.name.text before = some line.name
  value : header.value.text before = some line.value

theorem HeaderRead.append {before : List Byte} {header : Response.Header} {line : HeaderLine}
    (read : HeaderRead before header line) (more : List Byte) :
    HeaderRead (before ++ more) header line :=
  ⟨StringView.text_append read.name more, StringView.text_append read.value more⟩

/-- The response after its status line and some header lines. -/
structure HeadRead (line : StatusLine) (lines : List HeaderLine) (before : List Byte)
    (res : Response) : Prop where
  status : StatusRead line before res
  headers : List.Forall₂ (HeaderRead before) res.headers lines
  isChunked : res.isChunked = lines.any announcesChunks
  contentLength : res.contentLength = 0
  content : res.content = .empty
  chunks : res.chunks = []

/-- Reading on keeps what is read. -/
theorem HeadRead.append {line : StatusLine} {lines : List HeaderLine} {before : List Byte}
    {res : Response} (read : HeadRead line lines before res) (more : List Byte) :
    HeadRead line lines (before ++ more) res :=
  { read with
    status := read.status.append more
    headers := List.Forall₂.imp (fun _ _ stored => stored.append more) read.headers }

theorem headRead_start {line : StatusLine} {before : List Byte} {l : Locals}
    (read : StatusRead line before l.res) (only : OnlyStatus l) :
    HeadRead line [] before l.res := by
  obtain ⟨_, statusCode, codestr, status, version, same⟩ := only
  exact ⟨read, by rw [same]; exact .nil, by rw [same]; rfl, by rw [same], by rw [same],
    by rw [same]⟩

theorem length_colonText (spaced : Bool) :
    (colonText spaced).length = 1 + if spaced then 1 else 0 := by
  cases spaced <;> rfl

/-- A header name, or the beginning of one. -/
theorem runs_headerName (after before : List Byte) {l : Locals} {name : List Byte}
    (good : Token Plain (fun byte => Plain byte ∧ byte ≠ chr ':') name)
    (state : (l.state = .statusMsgEndRn ∧ ∀ byte ∈ name.head?, isAlnum byte = true) ∨
      l.state = .headerRn) :
    Runs (turn after) before name l fun _ l' =>
      l' = { l with state := .headerName, prevIt := before.length } := by
  obtain ⟨first, rest, rfl⟩ := List.exists_cons_of_ne_nil good.ne_nil
  refine runs_cons fun ahead => ?_
  have notEnd := Plain.ne_CR good.1
  have enters : turn after before first ahead l =
      .go { l with state := .headerName, prevIt := before.length } := by
    rcases state with ⟨state, alnum⟩ | state
    · simp [turn, state, notEnd, alnum first rfl]
    · simp [turn, state, notEnd, good.1]
  rw [enters, onward_go]
  refine runs_loop (fun symbol member before' ahead' => ?_) rfl
  obtain ⟨plain, notColon⟩ := good.2 symbol member
  simp [turn, plain, notColon]

/-- Where the parser stands between a name and a value. -/
def afterColon (spaced : Bool) : State := if spaced then .headerNameValueSpace else .headerNameEnd

theorem runs_colonText (after before : List Byte) {l : Locals} (spaced : Bool)
    (state : l.state = .headerName) :
    Runs (turn after) before (colonText spaced) l fun _ l' => l' = { l with
      state := afterColon spaced
      headerName := .range l.prevIt before.length } := by
  refine runs_cons fun ahead => ?_
  rw [turn]
  simp only [state, if_true, onward_go]
  cases spaced with
  | true =>
    refine runs_cons fun ahead => ?_
    simp only [turn, if_true, onward_go]
    exact runs_nil rfl
  | false => exact runs_nil rfl

/-- A header value, or the beginning of one. -/
theorem runs_headerValue (after before : List Byte) {l : Locals} {spaced : Bool}
    {value : List Byte}
    (good : Token (fun byte => Plain byte ∧ (spaced = false → byte ≠ SP)) Plain value)
    (state : l.state = afterColon spaced) :
    Runs (turn after) before value l fun _ l' =>
      l' = { l with state := .headerValueStart, prevIt := before.length } := by
  refine good.runs _ ?_ ?_ rfl
  · intro symbol ahead plain
    cases spaced with
    | true =>
      rw [afterColon, if_pos rfl] at state
      simp [turn, state, plain.1]
    | false =>
      rw [afterColon, if_neg Bool.false_ne_true] at state
      simp [turn, state, plain.1, plain.2 rfl]
  · intro symbol before' ahead plain
    simp [turn, plain]

/-- A header line up to the end of its value. -/
theorem runs_headerOpen (after before : List Byte) {l : Locals} {header : HeaderLine}
    (good : GoodLine header)
    (state : (l.state = .statusMsgEndRn ∧ ∀ byte ∈ header.name.head?, isAlnum byte = true) ∨
      l.state = .headerRn) :
    Runs (turn after) before (header.name ++ (colonText header.spaced ++ header.value)) l
      fun _ l' => l' = { l with
        state := .headerValueStart
        prevIt := before.length + valueOffset header
        headerName := .range before.length (before ++ header.name).length } := by
  refine Runs.append (runs_headerName after before good.name state) ?_
  rintro _ rfl
  refine Runs.append (runs_colonText after _ header.spaced rfl) ?_
  rintro _ rfl
  refine (runs_headerValue after _ good.value rfl).mono ?_
  rintro _ rfl
  have position : ((before ++ header.name ++ colonText header.spaced).length : Int) =
      before.length + valueOffset header := by
    rw [List.length_append, List.length_append, length_colonText, valueOffset]
    omega
  rw [position]

/-- Ending a header value adds the header line to what is read. -/
theorem finishHeaderValue_read {line : StatusLine} {lines : List HeaderLine} {before : List Byte}
    {l : Locals} (memory : List Byte) (header : HeaderLine)
    (read : HeadRead line lines before l.res)
    (prevIt : l.prevIt = before.length + valueOffset header)
    (named : l.headerName = .range before.length (before ++ header.name).length) :
    ∃ l' notes, finishHeaderValue memory
        (before ++ (header.name ++ (colonText header.spaced ++ header.value)))
        (before ++ (header.name ++ (colonText header.spaced ++ header.value))).length l =
          .go l' notes ∧
      l'.state = .headerR ∧
      HeadRead line (lines ++ [header])
        (before ++ (header.name ++ (colonText header.spaced ++ header.value))) l'.res ∧
      l'.contentLength = (if header.name = ascii "Content-Length" then
        atoi (memory.drop (before.length + valueOffset header)) else l.contentLength) ∧
      l'.newChunkSize = l.newChunkSize := by
  have name : l.headerName.text
      (before ++ (header.name ++ (colonText header.spaced ++ header.value))) =
      some header.name := by
    rw [named]
    exact StringView.text_range before header.name (colonText header.spaced ++ header.value)
      (by simp) rfl rfl
  have value : (StringView.range l.prevIt
      (before ++ (header.name ++ (colonText header.spaced ++ header.value))).length).text
      (before ++ (header.name ++ (colonText header.spaced ++ header.value))) =
        some header.value := by
    refine StringView.text_range (before ++ header.name ++ colonText header.spaced) header.value []
      (by simp) ?_ (by simp)
    rw [prevIt, List.length_append, List.length_append, length_colonText, valueOffset]
    omega
  have later := read.append (header.name ++ (colonText header.spaced ++ header.value))
  have stored : List.Forall₂ (HeaderRead _) (l.res.headers ++ [⟨l.headerName, .range l.prevIt
      (before ++ (header.name ++ (colonText header.spaced ++ header.value))).length⟩])
      (lines ++ [header]) :=
    List.rel_append later.headers (.cons ⟨name, value⟩ .nil)
  have position : l.prevIt.toNat = before.length + valueOffset header := by omega
  have chunked : (l.headerName.same
      (before ++ (header.name ++ (colonText header.spaced ++ header.value)))
        (.elsewhere (ascii "Transfer-Encoding")) &&
      (StringView.range l.prevIt
        (before ++ (header.name ++ (colonText header.spaced ++ header.value))).length).same
        (before ++ (header.name ++ (colonText header.spaced ++ header.value)))
          (.elsewhere (ascii "chunked"))) = announcesChunks header := by
    rw [Bool.eq_iff_iff, Bool.and_eq_true, StringView.same_iff_of_text name rfl,
      StringView.same_iff_of_text value rfl, announcesChunks, Bool.and_eq_true, beq_iff_eq,
      beq_iff_eq]
  have isLength : l.headerName.same
      (before ++ (header.name ++ (colonText header.spaced ++ header.value)))
        (.elsewhere (ascii "Content-Length")) = true ↔ header.name = ascii "Content-Length" :=
    StringView.same_iff_of_text name rfl
  unfold finishHeaderValue
  simp only [chunked, position]
  cases announces : announcesChunks header with
  | true =>
    have notLength : header.name ≠ ascii "Content-Length" := by
      have typed := (Bool.and_eq_true _ _ ▸ announces : _ ∧ _).1
      rw [beq_iff_eq.mp typed]
      decide
    refine ⟨_, _, rfl, rfl, ⟨⟨later.status.version, later.status.codestr, later.status.status⟩,
      stored, ?_, later.contentLength, later.content, later.chunks⟩, (if_neg notLength).symm, rfl⟩
    rw [List.any_append, List.any_cons, announces, Bool.true_or, Bool.or_true]
  | false =>
    have noChunks : l.res.isChunked = (lines ++ [header]).any announcesChunks := by
      rw [List.any_append, List.any_cons, announces, later.isChunked]
      simp
    by_cases sized : header.name = ascii "Content-Length"
    · rw [if_pos (isLength.mpr sized)]
      exact ⟨_, _, rfl, rfl, ⟨⟨later.status.version, later.status.codestr, later.status.status⟩,
        stored, noChunks, later.contentLength, later.content, later.chunks⟩,
        (if_pos sized).symm, rfl⟩
    · rw [if_neg fun same => sized (isLength.mp same)]
      exact ⟨_, _, rfl, rfl, ⟨⟨later.status.version, later.status.codestr, later.status.status⟩,
        stored, noChunks, later.contentLength, later.content, later.chunks⟩,
        (if_neg sized).symm, rfl⟩

/-- A header line of the grammar goes through and is added to what is read. -/
theorem runs_headerLine {line : StatusLine} {lines : List HeaderLine} {before : List Byte}
    {l : Locals} {header : HeaderLine} (good : GoodLine header)
    (read : HeadRead line lines before l.res)
    (state : (l.state = .statusMsgEndRn ∧ ∀ byte ∈ header.name.head?, isAlnum byte = true) ∨
      l.state = .headerRn) :
    Runs (turn after) before header.bytes l fun before' l' =>
      l'.state = .headerRn ∧ HeadRead line (lines ++ [header]) before' l'.res := by
  have shape : header.bytes =
      (header.name ++ (colonText header.spaced ++ header.value)) ++ crlf := by
    simp [HeaderLine.bytes]
  rw [shape]
  refine Runs.append (runs_headerOpen after before good state) ?_
  rintro _ rfl
  refine runs_cons fun ahead => ?_
  have control : isHttpControl CR = true := by decide
  simp only [turn, control, Bool.not_true, Bool.false_eq_true, if_false, if_true]
  obtain ⟨l', notes, turned, state', read', _⟩ := finishHeaderValue_read
    (l := { l with
      state := .headerValueStart
      prevIt := before.length + valueOffset header
      headerName := .range before.length (before ++ header.name).length })
    (before ++ (header.name ++ (colonText header.spaced ++ header.value)) ++ CR :: ahead ++ after)
    header read rfl rfl
  rw [turned, onward_go]
  refine runs_cons fun ahead' => ?_
  rw [turn]
  simp only [state', if_true, onward_go]
  refine runs_nil ⟨rfl, ?_⟩
  have grown := read'.append (crlf)
  simpa using grown

theorem runs_headerLines {line : StatusLine} {lines : List HeaderLine} {before : List Byte}
    {l : Locals} (more : List HeaderLine) (good : ∀ header ∈ more, GoodLine header)
    (read : HeadRead line lines before l.res)
    (state : (l.state = .statusMsgEndRn ∧
        ∀ header ∈ more.head?, ∀ byte ∈ header.name.head?, isAlnum byte = true) ∨
      l.state = .headerRn) :
    Runs (turn after) before (headerBytes more) l fun before' l' =>
      (more = [] ∧ l'.state = l.state ∨ more ≠ [] ∧ l'.state = .headerRn) ∧
      HeadRead line (lines ++ more) before' l'.res := by
  induction more generalizing lines before l with
  | nil => exact runs_nil ⟨Or.inl ⟨rfl, rfl⟩, by rwa [List.append_nil]⟩
  | cons header rest inductionHypothesis =>
    have state' : (l.state = .statusMsgEndRn ∧ ∀ byte ∈ header.name.head?, isAlnum byte = true) ∨
        l.state = .headerRn := by
      rcases state with ⟨state, alnum⟩ | state
      · exact Or.inl ⟨state, alnum header rfl⟩
      · exact Or.inr state
    refine Runs.append (runs_headerLine (good header List.mem_cons_self) read state') ?_
    rintro l' ⟨inLines, read'⟩
    refine (inductionHypothesis (fun other member => good other (List.mem_cons_of_mem _ member))
      read' (Or.inr inLines)).mono ?_
    rintro l'' ⟨ends, read''⟩
    refine ⟨Or.inr ⟨List.cons_ne_nil _ _, ?_⟩, by simpa using read''⟩
    rcases ends with ⟨_, same⟩ | ⟨_, same⟩
    · rw [same, inLines]
    · exact same

/-- Bytes before the first header line that are neither a carriage return nor alphanumeric are
skipped. -/
theorem runs_junk {before : List Byte} {l : Locals} (junk : List Byte)
    (skipped : ∀ byte ∈ junk, byte ≠ CR ∧ isAlnum byte = false)
    (state : l.state = .statusMsgEndRn) :
    Runs (turn after) before junk l fun _ l' => l' = l := by
  refine runs_loop (fun symbol member before' ahead => ?_) rfl
  obtain ⟨notEnd, notAlnum⟩ := skipped symbol member
  simp [turn, state, notEnd, notAlnum]

/-- A response head up to the empty line. -/
theorem runs_upToLines (after : List Byte) (head : ResponseHead) (good : head.WellFormed) :
    Runs (turn after) [] (head.line.bytes ++ head.junk ++ headerBytes head.lines) (start .fresh)
      fun before l =>
        (head.lines = [] ∧ l.state = .statusMsgEndRn ∨ head.lines ≠ [] ∧ l.state = .headerRn) ∧
        HeadRead head.line head.lines before l.res := by
  rw [List.append_assoc]
  refine Runs.append (runs_statusLine head.line good.line) ?_
  rintro l ⟨state, read, only, _⟩
  refine Runs.append (runs_junk head.junk good.junk state) ?_
  rintro l' rfl
  have started := (headRead_start read only).append head.junk
  refine (runs_headerLines head.lines good.lines started (Or.inl ⟨state, good.alnum⟩)).mono ?_
  rintro l'' ⟨ends, read'⟩
  refine ⟨?_, by simpa using read'⟩
  rcases ends with ⟨empty, same⟩ | nonempty
  · exact Or.inl ⟨empty, by rw [same, state]⟩
  · exact Or.inr nonempty

/-- Where a head leads: to chunks, or to a body that is taken whole. -/
def ResponseHead.bodyState (head : ResponseHead) : State :=
  if head.lines.any announcesChunks then .newChunkStart else .dataStart

theorem runs_emptyLine (after before : List Byte) {l : Locals} {head : ResponseHead}
    (state : l.state = .headerRn) (chunked : l.res.isChunked = head.lines.any announcesChunks) :
    Runs (turn after) before crlf l fun _ l' => l' = { l with state := head.bodyState } := by
  unfold ResponseHead.bodyState
  refine runs_cons fun ahead => ?_
  rw [turn]
  simp only [state, if_true, onward_go]
  refine runs_cons fun ahead => ?_
  rw [← chunked]
  cases isChunked : l.res.isChunked with
  | true =>
    simp only [turn, if_true, isChunked, onward_go]
    exact runs_nil rfl
  | false =>
    simp only [turn, if_true, isChunked, Bool.false_eq_true, if_false, onward_go]
    exact runs_nil rfl

/-- A response head with header lines goes through, to the start of its body. -/
theorem runs_head (after : List Byte) (head : ResponseHead) (good : head.WellFormed)
    (nonempty : head.lines ≠ []) :
    Runs (turn after) [] head.bytes (start .fresh) fun before l =>
      l.state = head.bodyState ∧ HeadRead head.line head.lines before l.res := by
  refine Runs.append (runs_upToLines after head good) ?_
  rintro l ⟨⟨empty, _⟩ | ⟨_, state⟩, read⟩
  · exact absurd empty nonempty
  refine (runs_emptyLine after _ state read.isChunked).mono ?_
  rintro _ rfl
  exact ⟨rfl, read.append crlf⟩

/-! ### The announced length -/

/-- What the parser takes for the length of the body, read in memory that goes on with `rest`. -/
def ResponseHead.announced (memory : List Byte) (head : ResponseHead) : Int :=
  announcedLength memory (head.line.bytes ++ head.junk).length head.lines 0

/-- A header line under one lookahead. -/
theorem feed_headerLine {line : StatusLine} {lines : List HeaderLine} {before : List Byte}
    {l : Locals} {header : HeaderLine} (after ahead : List Byte) (good : GoodLine header)
    (read : HeadRead line lines before l.res)
    (state : (l.state = .statusMsgEndRn ∧ ∀ byte ∈ header.name.head?, isAlnum byte = true) ∨
      l.state = .headerRn) :
    ∃ l', feed (turn after) before header.bytes ahead 0 l = .inside 0 l' ∧ l'.state = .headerRn ∧
      HeadRead line (lines ++ [header]) (before ++ header.bytes) l'.res ∧
      l'.contentLength = if header.name = ascii "Content-Length" then
        atoi ((before ++ header.bytes ++ ahead ++ after).drop (before.length + valueOffset header))
      else l.contentLength := by
  have shape : header.bytes =
      (header.name ++ (colonText header.spaced ++ header.value)) ++ crlf := by
    simp [HeaderLine.bytes]
  have memory : before ++ (header.name ++ (colonText header.spaced ++ header.value)) ++
      CR :: ([LF] ++ ahead) ++ after = before ++ header.bytes ++ ahead ++ after := by
    rw [shape]
    simp
  obtain ⟨_, inside, rfl⟩ := (runs_headerOpen after before good state).feed (crlf ++ ahead)
  obtain ⟨l', notes, turned, state', read', length, _⟩ := finishHeaderValue_read
    (l := { l with
      state := .headerValueStart
      prevIt := before.length + valueOffset header
      headerName := .range before.length (before ++ header.name).length })
    (before ++ header.bytes ++ ahead ++ after) header read rfl rfl
  have control : isHttpControl CR = true := by decide
  have ended : turn after (before ++ (header.name ++ (colonText header.spaced ++ header.value))) CR
      ([LF] ++ ahead) { l with
        state := .headerValueStart
        prevIt := before.length + valueOffset header
        headerName := .range before.length (before ++ header.name).length } = .go l' notes := by
    rw [← turned, ← memory, turn]
    simp only [control, Bool.not_true, Bool.false_eq_true, if_false, if_true]
  refine ⟨{ l' with state := .headerRn }, ?_, rfl, ?_, length⟩
  · rw [shape, feed_append_of_inside inside, feed_cons_go ended, feed_cons_go]
    · rfl
    · rw [turn]
      simp only [state', if_true]
      rfl
  · have grown := read'.append crlf
    rw [shape, ← List.append_assoc before]
    exact grown

/-- Header lines under one lookahead. -/
theorem feed_headerLines {line : StatusLine} {lines : List HeaderLine} {before : List Byte}
    {l : Locals} (after ahead : List Byte) (more : List HeaderLine)
    (good : ∀ header ∈ more, GoodLine header) (read : HeadRead line lines before l.res)
    (state : (l.state = .statusMsgEndRn ∧
        ∀ header ∈ more.head?, ∀ byte ∈ header.name.head?, isAlnum byte = true) ∨
      l.state = .headerRn) :
    ∃ l', feed (turn after) before (headerBytes more) ahead 0 l = .inside 0 l' ∧
      (more = [] ∧ l'.state = l.state ∨ more ≠ [] ∧ l'.state = .headerRn) ∧
      HeadRead line (lines ++ more) (before ++ headerBytes more) l'.res ∧
      l'.contentLength = announcedLength (before ++ headerBytes more ++ ahead ++ after)
        before.length more l.contentLength := by
  induction more generalizing lines before l with
  | nil =>
    refine ⟨l, rfl, Or.inl ⟨rfl, rfl⟩, ?_, rfl⟩
    rw [List.append_nil]
    exact read.append []
  | cons header rest inductionHypothesis =>
    have state' : (l.state = .statusMsgEndRn ∧ ∀ byte ∈ header.name.head?, isAlnum byte = true) ∨
        l.state = .headerRn := by
      rcases state with ⟨state, alnum⟩ | state
      · exact Or.inl ⟨state, alnum header rfl⟩
      · exact Or.inr state
    obtain ⟨l', inside, inLines, read', length⟩ := feed_headerLine after
      (headerBytes rest ++ ahead) (good header List.mem_cons_self) read state'
    obtain ⟨l'', inside', ends, read'', length'⟩ := inductionHypothesis
      (fun other member => good other (List.mem_cons_of_mem _ member)) read' (Or.inr inLines)
    have memory : before ++ header.bytes ++ (headerBytes rest ++ ahead) ++ after =
        before ++ headerBytes (header :: rest) ++ ahead ++ after := by
      simp [headerBytes_cons]
    have memory' : before ++ header.bytes ++ headerBytes rest ++ ahead ++ after =
        before ++ headerBytes (header :: rest) ++ ahead ++ after := by
      simp [headerBytes_cons]
    refine ⟨l'', ?_, Or.inr ⟨List.cons_ne_nil _ _, ?_⟩, ?_, ?_⟩
    · rw [headerBytes_cons, feed_append_of_inside inside, inside']
    · rcases ends with ⟨_, same⟩ | ⟨_, same⟩
      · rw [same, inLines]
      · exact same
    · rw [headerBytes_cons, ← List.append_assoc]
      simpa using read''
    · rw [length', length, memory, memory', announcedLength, List.length_append]

/-- A response head under one lookahead, with the length it announces. -/
theorem feed_head (after : List Byte) (head : ResponseHead) (good : head.WellFormed)
    (nonempty : head.lines ≠ []) (rest : List Byte) :
    ∃ l, feed (turn after) [] head.bytes rest 0 (start .fresh) = .inside 0 l ∧
      l.state = head.bodyState ∧ HeadRead head.line head.lines head.bytes l.res ∧
      l.contentLength = head.announced (head.bytes ++ rest ++ after) := by
  have opening : Runs (turn after) [] (head.line.bytes ++ head.junk) (start .fresh)
      fun before l => l.state = .statusMsgEndRn ∧ HeadRead head.line [] before l.res ∧
        l.contentLength = 0 := by
    refine Runs.append (runs_statusLine head.line good.line) ?_
    rintro l ⟨state, read, only, _⟩
    refine (runs_junk head.junk good.junk state).mono ?_
    rintro _ rfl
    exact ⟨state, by simpa using (headRead_start read only).append head.junk, only.1⟩
  obtain ⟨opened, insideOpened, stateOpened, readOpened, none⟩ :=
    opening.feed (headerBytes head.lines ++ (crlf ++ rest))
  obtain ⟨l, inside, ⟨empty, _⟩ | ⟨_, state⟩, read, length⟩ := feed_headerLines after (crlf ++ rest)
    head.lines good.lines readOpened (Or.inl ⟨stateOpened, good.alnum⟩)
  · exact absurd empty nonempty
  obtain ⟨_, insideEnded, rfl⟩ :=
    (runs_emptyLine after _ state read.isChunked).feed rest
  refine ⟨{ l with state := head.bodyState }, ?_, rfl, ?_, ?_⟩
  · rw [ResponseHead.bytes, List.append_assoc, feed_append_of_inside (by
      rw [List.append_assoc]; exact insideOpened), feed_append_of_inside inside, insideEnded]
  · exact read.append crlf
  · rw [length, none, ResponseHead.announced, ResponseHead.bytes]
    simp

/-- How a run that stays inside or leaves ends `parse`. -/
theorem parse_of_inside {res : Response} {buf : List Byte} {l : Locals}
    (inside : feed (turn after) [] buf [] 0 (start res) = .inside 0 l) :
    parse after res buf = .returned .inCompleted l.res := by
  rw [parse, run, inside]

theorem parse_of_left {res : Response} {buf : List Byte} {outcome : Outcome}
    (left : feed (turn after) [] buf [] 0 (start res) = .left outcome) :
    parse after res buf = outcome := by
  rw [parse, run, left]

end ResponseParser

end Sheep
