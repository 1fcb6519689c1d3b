/-
This file compares what the two message parsers take for a header section. Each
is characterised by its grammar: the request parser takes header lines as they
stand, the response parser may skip bytes before the first of them and refuses
bytes from `0x80` on. The parsers agree about a text exactly if neither
difference shows in it.
-/

import Sheep.RequestAcceptance
import Sheep.ResponseTrail

namespace Sheep

open ScanLoop

namespace HeaderSection

/-! ### Header sections -/

/-- The name and the value of a header line. -/
def field (line : HeaderLine) : List Byte × List Byte := (line.name, line.value)

/-- Stored headers denote these names and values. -/
def Denotes {α : Type} (name value : α → StringView) (buffer : List Byte) :
    List α → List (List Byte × List Byte) → Prop :=
  List.Forall₂ fun header text =>
    (name header).text buffer = some text.1 ∧ (value header).text buffer = some text.2

/-- Stored headers denote one list of names and values. -/
theorem denotes_iff {α : Type} {name value : α → StringView} {buffer : List Byte}
    {headers : List α} {lines : List HeaderLine}
    (read : List.Forall₂ (fun header line => (name header).text buffer = some line.name ∧
      (value header).text buffer = some line.value) headers lines)
    {fields : List (List Byte × List Byte)} :
    Denotes name value buffer headers fields ↔ fields = lines.map field := by
  induction read generalizing fields with
  | nil =>
    constructor
    · intro denotes
      cases denotes
      rfl
    · rintro rfl
      exact .nil
  | @cons header line headers lines here later inductionHypothesis =>
    constructor
    · intro denotes
      cases denotes with
      | @cons _ text _ texts stored others =>
        have name := Option.some.inj (stored.1.symm.trans here.1)
        have value := Option.some.inj (stored.2.symm.trans here.2)
        rw [inductionHypothesis.mp others, List.map_cons, field, ← name, ← value]
    · rintro rfl
      exact .cons here (inductionHypothesis.mpr rfl)

def getLine : RequestParser.RequestLine :=
  { method := ascii "GET", uri := ascii "/", version := ascii "1.1" }

def okLine : ResponseParser.StatusLine :=
  { version := ascii "1.1", code := ascii "200", reason := ascii "OK" }

theorem wellFormed_getLine : getLine.WellFormed := ⟨by decide, by decide, by decide⟩

theorem wellFormed_okLine : okLine.WellFormed := ⟨by decide, by decide, by decide, by decide⟩

/-- The text behind the request line is completed with these headers, and the first empty line
ends where `front` does. -/
structure RequestTakes (after : List Byte) (size : UInt64) (text front : List Byte)
    (fields : List (List Byte × List Byte)) : Prop where
  emptyLine : ∃ upTo rest l, front = upTo ++ [LF] ∧ text = front ++ rest ∧
    feed (RequestParser.turn after) [] (getLine.bytes ++ upTo) (LF :: rest) 0
      (RequestParser.start (.fresh size)) = .inside 0 l ∧
    (l.state = .versionEndRnr ∨ l.state = .headerRnr)
  completed : ∃ req, RequestParser.parse after (.fresh size) (getLine.bytes ++ text) =
      .returned .completed req ∧
    Denotes Request.Header.name Request.Header.value (getLine.bytes ++ text) req.headers fields

/-- Behind the status line the parser gets past the first empty line, which ends where `front`
does, with these headers: there it is done, or at the start of a body or of its chunks. One byte
more lies ahead. -/
def ResponseTakes (after : List Byte) (further : Byte) (text front : List Byte)
    (fields : List (List Byte × List Byte)) : Prop :=
  ∃ upTo rest l, front = upTo ++ [LF] ∧ text = front ++ rest ∧
    feed (ResponseParser.turn after) [] (okLine.bytes ++ upTo) (LF :: rest ++ [further]) 0
      (ResponseParser.start .fresh) = .inside 0 l ∧
    (l.state = .statusMsgEndRnr ∨ l.state = .headerRnr) ∧
    (ResponseParser.turn after (okLine.bytes ++ upTo) LF (rest ++ [further]) l).Leads
      (fun _ next => (next.state = .dataStart ∨ next.state = .newChunkStart) ∧
        Denotes Response.Header.name Response.Header.value (okLine.bytes ++ text)
          next.res.headers fields)
      (fun outcome => outcome.verdict = some .completed ∧
        Denotes Response.Header.name Response.Header.value (okLine.bytes ++ text)
          outcome.response.headers fields)

/-! ### What the request parser takes -/

variable {after : List Byte} {size : UInt64} {further : Byte} {text front : List Byte}
  {fields : List (List Byte × List Byte)}

theorem requestTakes_iff : RequestTakes after size text front fields ↔
    ∃ lines, (∀ header ∈ lines, RequestParser.GoodLine header) ∧
      front = headerBytes lines ++ crlf ∧ front <+: text ∧ fields = lines.map field := by
  have notBody : ¬ RequestParser.HasBody getLine.method := by decide
  have parsed {lines : List HeaderLine} (good : ∀ header ∈ lines, RequestParser.GoodLine header)
      (rest : List Byte) : ∃ req, RequestParser.parse after (.fresh size)
        (getLine.bytes ++ (headerBytes lines ++ crlf ++ rest)) = .returned .completed req ∧
      (Denotes Request.Header.name Request.Header.value
        (getLine.bytes ++ (headerBytes lines ++ crlf ++ rest)) req.headers fields ↔
        fields = lines.map field) := by
    have inGrammar : RequestParser.InGrammar ⟨getLine, lines⟩ :=
      ⟨⟨wellFormed_getLine, good⟩, notBody⟩
    obtain ⟨req, parsed, stored⟩ := RequestParser.parse_of_inGrammar after size inGrammar rest
    have shape : RequestParser.RequestHead.bytes ⟨getLine, lines⟩ ++ rest =
        getLine.bytes ++ (headerBytes lines ++ crlf ++ rest) := by
      simp [RequestParser.RequestHead.bytes]
    rw [shape] at parsed stored
    refine ⟨req, parsed, denotes_iff ?_⟩
    exact List.Forall₂.imp (fun _ _ one => ⟨one.name, one.value⟩) stored.headers
  constructor
  · rintro ⟨⟨upTo, rest, l, rfl, rfl, inside, state⟩, req, completed, denotes⟩
    obtain ⟨lines, good, sameBytes⟩ : ∃ lines,
        (∀ header ∈ lines, RequestParser.GoodLine header) ∧
          upTo = headerBytes lines ++ [CR] := by
      rcases (RequestParser.trail_of_feed inside).2 with ⟨inLine, _⟩ | header | ⟨fixed, _⟩ |
        ⟨head, boundary, body, _, _, body⟩
      · rcases state with state | state <;> simp [RequestParser.State.InLine, state] at inLine
      · rcases state with state | state
        · rw [RequestParser.HeaderTrail, state] at header
          obtain ⟨line, good, same, _⟩ := header
          obtain ⟨_, rfl⟩ := RequestParser.requestLine_inj wellFormed_getLine good same
          exact ⟨[], fun _ member => absurd member List.not_mem_nil, rfl⟩
        · rw [RequestParser.HeaderTrail, state] at header
          obtain ⟨head, done, same⟩ := header
          rw [List.append_assoc] at same
          obtain ⟨_, rfl⟩ := RequestParser.requestLine_inj wellFormed_getLine done.good.line same
          exact ⟨head.lines, done.good.lines, rfl⟩
      · rcases state with state | state <;> · rw [state] at fixed; cases fixed
      · rcases state with state | state <;>
          · rw [RequestParser.BodyTrail, state] at body
            exact absurd body.2 id
    subst sameBytes
    have shape : headerBytes lines ++ [CR] ++ [LF] = headerBytes lines ++ crlf := by simp
    rw [shape] at completed denotes ⊢
    obtain ⟨req', parsed', denotes'⟩ := parsed good rest
    rw [parsed'] at completed
    cases completed
    exact ⟨lines, good, rfl, ⟨rest, rfl⟩, denotes'.mp denotes⟩
  · rintro ⟨lines, good, rfl, ⟨rest, rfl⟩, same⟩
    obtain ⟨req, completed, denotes⟩ := parsed good rest
    refine ⟨?_, req, completed, denotes.mpr same⟩
    obtain ⟨l, inside, state, _⟩ := (RequestParser.runs_head after ⟨getLine, lines⟩
      ⟨wellFormed_getLine, good⟩ size).feed (LF :: rest)
    refine ⟨headerBytes lines ++ [CR], rest, l, by simp, rfl, inside, ?_⟩
    split at state
    · exact Or.inl state
    · exact Or.inr state

/-! ### What the response parser takes -/

/-- A buffer starts with at most one status line. -/
theorem statusLine_inj {line line' : ResponseParser.StatusLine} {more more' : List Byte}
    (good : line.WellFormed) (good' : line'.WellFormed)
    (same : line.bytes ++ more = line'.bytes ++ more') : line = line' ∧ more = more' := by
  obtain ⟨version, code, reason⟩ := line
  obtain ⟨version', code', reason'⟩ := line'
  simp only [ResponseParser.StatusLine.bytes, List.append_assoc, List.cons_append] at same
  have same := List.append_cancel_left same
  obtain ⟨rfl, _, same⟩ := good.version.append_cons_inj (by decide) good'.version (by decide) same
  obtain ⟨rfl, _, same⟩ := good.code.append_cons_inj (by decide) good'.code (by decide) same
  obtain ⟨rfl, _, same⟩ := good.reason.append_cons_inj (by decide) good'.reason (by decide) same
  exact ⟨rfl, (List.cons.inj same).2⟩

theorem responseTakes_iff : ResponseTakes after further text front fields ↔
    ∃ junk lines, ResponseParser.ResponseHead.WellFormed ⟨okLine, junk, lines⟩ ∧
      front = junk ++ headerBytes lines ++ crlf ∧ front <+: text ∧ fields = lines.map field := by
  have denotes {lines : List HeaderLine} {upTo : List Byte} (rest : List Byte) {res : Response}
      (read : ResponseParser.HeadRead okLine lines (okLine.bytes ++ upTo) res) :
      Denotes Response.Header.name Response.Header.value (okLine.bytes ++ (upTo ++ [LF] ++ rest))
        res.headers fields ↔ fields = lines.map field := by
    have grown := (read.append ([LF] ++ rest)).headers
    rw [List.append_assoc, ← List.append_assoc upTo] at grown
    exact denotes_iff (List.Forall₂.imp (fun _ _ one => ⟨one.name, one.value⟩) grown)
  -- what the line feed of the empty line leads to
  have ended {upTo rest : List Byte} {l : ResponseParser.Locals}
      (state : l.state = .statusMsgEndRnr ∨ l.state = .headerRnr) :
      (ResponseParser.turn after (okLine.bytes ++ upTo) LF (rest ++ [further]) l).Leads
        (fun _ next => (next.state = .dataStart ∨ next.state = .newChunkStart) ∧
          next.res.headers = l.res.headers)
        (fun outcome => outcome.verdict = some .completed ∧
          outcome.response.headers = l.res.headers) := by
    rw [ResponseParser.turn]
    rcases state with state | state
    · simp only [state, if_true]
      exact ⟨rfl, rfl⟩
    · simp only [state, if_true]
      split
      · exact ⟨Or.inr rfl, rfl⟩
      · exact ⟨Or.inl rfl, rfl⟩
  constructor
  · rintro ⟨upTo, rest, l, rfl, rfl, inside, state, leads⟩
    have denoted : Denotes Response.Header.name Response.Header.value
        (okLine.bytes ++ (upTo ++ [LF] ++ rest)) l.res.headers fields := by
      have both := leads.and (ended state)
      generalize ResponseParser.turn _ _ _ _ _ = turned at both
      cases turned with
      | leave outcome notes => exact both.2.2 ▸ both.1.2
      | go next notes => exact both.2.2 ▸ both.1.2
      | jump count next notes => exact both.2.2 ▸ both.1.2
    obtain ⟨head, good, same, read⟩ : ∃ head : ResponseParser.ResponseHead, head.WellFormed ∧
        okLine.bytes ++ upTo = head.line.bytes ++ head.junk ++ headerBytes head.lines ++ [CR] ∧
        ResponseParser.HeadRead head.line head.lines (okLine.bytes ++ upTo) l.res := by
      rcases ResponseParser.trail_of_feed inside with ⟨jumping, _⟩ |
        ⟨_, ⟨inStatus, _⟩ | header | body⟩
      · rcases state with state | state <;> · rw [state] at jumping; cases jumping
      · rcases state with state | state <;> simp [ResponseParser.State.InStatus, state] at inStatus
      · rcases state with state | state
        · rw [ResponseParser.HeaderTrail, state] at header
          obtain ⟨head, start, _, read, same⟩ := header
          rw [read.bytes] at same
          refine ⟨head, read.good, same, ?_⟩
          rw [same, ← read.bytes]
          exact read.read.append [CR]
        · rw [ResponseParser.HeaderTrail, state] at header
          obtain ⟨head, done, same⟩ := header
          exact ⟨head, done.good, same, done.read⟩
      · rcases state with state | state <;>
          · rw [ResponseParser.BodyTrail, state] at body
            exact absurd body id
    obtain ⟨line, junk, lines⟩ := head
    rw [List.append_assoc, List.append_assoc] at same
    obtain ⟨rfl, sameRest⟩ := statusLine_inj wellFormed_okLine good.line same
    refine ⟨junk, lines, good, ?_, ⟨rest, rfl⟩, (denotes rest read).mp denoted⟩
    rw [sameRest]
    simp
  · rintro ⟨junk, lines, good, rfl, ⟨rest, rfl⟩, rfl⟩
    have runs : Runs (ResponseParser.turn after) []
        (okLine.bytes ++ (junk ++ headerBytes lines ++ [CR])) (ResponseParser.start .fresh)
        fun before l => (l.state = .statusMsgEndRnr ∨ l.state = .headerRnr) ∧
          ResponseParser.HeadRead okLine lines before l.res := by
      rw [← List.append_assoc, ← List.append_assoc]
      refine Runs.append (ResponseParser.runs_upToLines after _ good) ?_
      rintro l ⟨state, read⟩
      refine runs_cons fun ahead => ?_
      rcases state with ⟨_, state⟩ | ⟨_, state⟩
      · simp only [ResponseParser.turn, state, if_true, onward_go]
        exact runs_nil ⟨Or.inl rfl, read.append [CR]⟩
      · simp only [ResponseParser.turn, state, if_true, onward_go]
        exact runs_nil ⟨Or.inr rfl, read.append [CR]⟩
    obtain ⟨l, inside, state, read⟩ := runs.feed (LF :: rest ++ [further])
    have denoted := (denotes rest read).mpr rfl
    have shape : junk ++ headerBytes lines ++ [CR] ++ [LF] = junk ++ headerBytes lines ++ crlf := by
      simp
    rw [shape] at denoted
    refine ⟨junk ++ headerBytes lines ++ [CR], rest, l, shape.symm, rfl, inside, state,
      (ended state).mono ?_ ?_⟩
    · rintro _ next ⟨atBody, same⟩
      exact ⟨atBody, same ▸ denoted⟩
    · rintro outcome ⟨completed, same⟩
      exact ⟨completed, same ▸ denoted⟩

/-! ### Agreement -/

/-- The section is nothing but its headers and the empty line. -/
def Covers (front : List Byte) (fields : List (List Byte × List Byte)) : Prop :=
  ∃ lines : List HeaderLine, front = headerBytes lines ++ crlf ∧ fields = lines.map field

/-- The parsers take the same header sections of a text, for the same headers, and no bytes are
skipped. -/
structure Agree (after after' : List Byte) (size : UInt64) (further : Byte) (text : List Byte) :
    Prop where
  same : ∀ front fields,
    RequestTakes after size text front fields ↔ ResponseTakes after' further text front fields
  whole : ∀ front fields,
    RequestTakes after size text front fields ∨ ResponseTakes after' further text front fields →
      Covers front fields

/-- The first header name starts with a letter or a digit. -/
def StartsAlnum (lines : List HeaderLine) : Prop :=
  ∀ header ∈ lines.head?, ∀ byte ∈ header.name.head?, isAlnum byte = true

/-- The name and the value of the header are ASCII. -/
def IsAscii (header : HeaderLine) : Prop :=
  ∀ byte ∈ header.name ++ header.value, byte.toNat < 128

/-- A header section at the start of the text is ASCII and starts with a letter or a digit, and
there is none behind other bytes. -/
structure Regular (text : List Byte) : Prop where
  ascii : ∀ lines, (∀ header ∈ lines, RequestParser.GoodLine header) →
    headerBytes lines ++ crlf <+: text → StartsAlnum lines ∧ ∀ header ∈ lines, IsAscii header
  tight : ∀ junk lines, (∀ byte ∈ junk, byte ≠ CR ∧ isAlnum byte = false) →
    (∀ header ∈ lines, ResponseParser.GoodLine header) → StartsAlnum lines →
    junk ++ headerBytes lines ++ crlf <+: text → junk = []

theorem plain_iff (byte : Byte) :
    ResponseParser.Plain byte ↔ RequestParser.Plain byte ∧ byte.toNat < 128 := by
  have request := RequestParser.isHttpControl_iff byte
  have response := ResponseParser.isHttpControl_iff byte
  rw [RequestParser.Plain, ResponseParser.Plain, ← Bool.not_eq_true, ← Bool.not_eq_true, request,
    response]
  omega

/-- The parsers differ about a header line only where it is not ASCII. -/
theorem goodLine_iff (header : HeaderLine) : ResponseParser.GoodLine header ↔
    RequestParser.GoodLine header ∧ IsAscii header := by
  constructor
  · rintro ⟨name, value⟩
    have all {first rest : Byte → Prop} {part : List Byte} (token : Token first rest part)
        (starts : ∀ byte, first byte → ResponseParser.Plain byte)
        (continues : ∀ byte, rest byte → ResponseParser.Plain byte) :
        ∀ byte ∈ part, byte.toNat < 128 := fun byte member =>
      ((plain_iff byte).mp ((token.imp (fun byte _ => starts byte)
        fun byte _ => continues byte).forall_mem byte member)).2
    refine ⟨⟨name.imp (fun byte _ plain => ((plain_iff byte).mp plain).1)
      (fun byte _ plain => ⟨((plain_iff byte).mp plain.1).1, plain.2⟩),
      value.imp (fun byte _ plain => ⟨((plain_iff byte).mp plain.1).1, plain.2⟩)
        fun byte _ plain => ((plain_iff byte).mp plain).1⟩, fun byte member => ?_⟩
    rcases List.mem_append.mp member with inName | inValue
    · exact all name (fun _ plain => plain) (fun _ plain => plain.1) byte inName
    · exact all value (fun _ plain => plain.1) (fun _ plain => plain) byte inValue
  · rintro ⟨⟨name, value⟩, isAscii⟩
    have inName (byte : Byte) (member : byte ∈ header.name) : byte.toNat < 128 :=
      isAscii byte (List.mem_append.mpr (Or.inl member))
    have inValue (byte : Byte) (member : byte ∈ header.value) : byte.toNat < 128 :=
      isAscii byte (List.mem_append.mpr (Or.inr member))
    exact ⟨name.imp (fun byte member plain => (plain_iff byte).mpr ⟨plain, inName byte member⟩)
      fun byte member plain => ⟨(plain_iff byte).mpr ⟨plain.1, inName byte member⟩, plain.2⟩,
      value.imp (fun byte member plain =>
        ⟨(plain_iff byte).mpr ⟨plain.1, inValue byte member⟩, plain.2⟩)
        fun byte member plain => (plain_iff byte).mpr ⟨plain, inValue byte member⟩⟩

/-- Lines with the same names and values are ASCII together. -/
theorem isAscii_of_fields {lines lines' : List HeaderLine}
    (same : lines.map field = lines'.map field) (all : ∀ header ∈ lines', IsAscii header) :
    ∀ header ∈ lines, IsAscii header := by
  intro header member
  obtain ⟨header', member', sameField⟩ :=
    List.mem_map.mp (same ▸ List.mem_map_of_mem member : field header ∈ lines'.map field)
  have name : header'.name = header.name := congrArg Prod.fst sameField
  have value : header'.value = header.value := congrArg Prod.snd sameField
  rw [IsAscii, ← name, ← value]
  exact all header' member'

theorem startsAlnum_of_fields {lines lines' : List HeaderLine}
    (same : lines.map field = lines'.map field) (starts : StartsAlnum lines') :
    StartsAlnum lines := by
  intro header first byte name
  cases lines with
  | nil => cases first
  | cons line rest =>
    cases lines' with
    | nil => cases same
    | cons line' rest' =>
      injection first with first
      subst first
      have sameName : line.name = line'.name := congrArg Prod.fst (List.cons.inj same).1
      exact starts line' rfl byte (sameName ▸ name)

/-- Bytes that are skipped are not part of a section that consists of the same headers. -/
theorem junk_eq_nil {junk : List Byte} {lines lines' : List HeaderLine}
    (skipped : ∀ byte ∈ junk, byte ≠ CR ∧ isAlnum byte = false)
    (good : ∀ header ∈ lines, ResponseParser.GoodLine header) (starts : StartsAlnum lines)
    (same : junk ++ headerBytes lines ++ crlf = headerBytes lines' ++ crlf)
    (sameFields : lines.map field = lines'.map field) : junk = [] := by
  cases junk with
  | nil => rfl
  | cons byte junk =>
    exfalso
    obtain ⟨notCR, notAlnum⟩ := skipped byte List.mem_cons_self
    cases lines' with
    | nil => exact notCR (List.cons.inj same).1
    | cons line' rest' =>
      cases lines with
      | nil => cases sameFields
      | cons line rest =>
        have sameName : line.name = line'.name := congrArg Prod.fst (List.cons.inj sameFields).1
        obtain ⟨first, others, named⟩ :=
          List.exists_cons_of_ne_nil (good line List.mem_cons_self).name.ne_nil
        have alnum : isAlnum first = true := starts line rfl first (by rw [named]; rfl)
        rw [headerBytes_cons line', HeaderLine.bytes, ← sameName, named] at same
        rw [(List.cons.inj same).1, alnum] at notAlnum
        cases notAlnum

/-- The parsers agree about a text exactly if it is regular. -/
theorem agree_iff_regular (after after' : List Byte) (size : UInt64) (further : Byte)
    (text : List Byte) : Agree after after' size further text ↔ Regular text := by
  have wellFormed {junk : List Byte} {lines : List HeaderLine}
      (skipped : ∀ byte ∈ junk, byte ≠ CR ∧ isAlnum byte = false)
      (good : ∀ header ∈ lines, ResponseParser.GoodLine header) (starts : StartsAlnum lines) :
      ResponseParser.ResponseHead.WellFormed ⟨okLine, junk, lines⟩ :=
    ⟨wellFormed_okLine, skipped, good, starts⟩
  constructor
  · intro agree
    constructor
    · intro lines good starts
      obtain ⟨junk, lines', good', sameFront, _, sameFields⟩ := responseTakes_iff.mp
        ((agree.same _ _).mp (requestTakes_iff.mpr ⟨lines, good, rfl, starts, rfl⟩))
      exact ⟨startsAlnum_of_fields sameFields good'.alnum, isAscii_of_fields sameFields
        fun header member => ((goodLine_iff header).mp (good'.lines header member)).2⟩
    · intro junk lines skipped good starts opens
      have takes : ResponseTakes after' further text (junk ++ headerBytes lines ++ crlf)
          (lines.map field) :=
        responseTakes_iff.mpr ⟨junk, lines, wellFormed skipped good starts, rfl, opens, rfl⟩
      obtain ⟨lines', same, sameFields⟩ := agree.whole _ _ (Or.inr takes)
      exact junk_eq_nil skipped good starts same sameFields
  · intro regular
    constructor
    · intro front fields
      rw [requestTakes_iff, responseTakes_iff]
      constructor
      · rintro ⟨lines, good, rfl, opens, same⟩
        obtain ⟨starts, isAscii⟩ := regular.ascii lines good opens
        refine ⟨[], lines, wellFormed (fun _ member => absurd member List.not_mem_nil)
          (fun header member => (goodLine_iff header).mpr ⟨good header member,
            isAscii header member⟩) starts, rfl, opens, same⟩
      · rintro ⟨junk, lines, good, rfl, opens, same⟩
        obtain rfl := regular.tight junk lines good.junk good.lines good.alnum opens
        exact ⟨lines, fun header member => ((goodLine_iff header).mp (good.lines header member)).1,
          rfl, opens, same⟩
    · rintro front fields (takes | takes)
      · obtain ⟨lines, _, same, _, sameFields⟩ := requestTakes_iff.mp takes
        exact ⟨lines, same, sameFields⟩
      · obtain ⟨junk, lines, good, same, opens, sameFields⟩ := responseTakes_iff.mp takes
        obtain rfl := regular.tight junk lines good.junk good.lines good.alnum (same ▸ opens)
        exact ⟨lines, same, sameFields⟩

/-- A header section whose only name starts with a dash. -/
def dashedSection : List Byte := ascii "-a: b\r\n\r\n"

/-- The dash is skipped by one parser and taken by the other. -/
theorem not_agree_dashedSection : ¬ Agree [] [] 0 (chr 'x') dashedSection := by
  intro agree
  have good : ∀ header ∈ [(⟨ascii "-a", true, ascii "b"⟩ : HeaderLine)],
      RequestParser.GoodLine header := by
    intro header member
    rw [List.mem_singleton.mp member]
    exact ⟨by decide, by decide⟩
  obtain ⟨junk, lines, good', _, _, same⟩ := responseTakes_iff.mp
    ((agree.same dashedSection [(ascii "-a", ascii "b")]).mp
      (requestTakes_iff.mpr ⟨_, good, rfl, List.prefix_refl _, rfl⟩))
  cases lines with
  | nil => cases same
  | cons line rest =>
    have name : ascii "-a" = line.name := congrArg Prod.fst (List.cons.inj same).1
    have alnum : isAlnum (chr '-') = true := good'.alnum line rfl (chr '-') (by rw [← name]; rfl)
    exact absurd alnum (by decide)

end HeaderSection

end Sheep
