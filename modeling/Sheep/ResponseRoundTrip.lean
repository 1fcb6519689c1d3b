/-
This file decides which response heads are read back. The parser takes the first
byte of a reason phrase in one state and the second in another, neither of which
knows the end of the line, and before the first header name it skips bytes until
a letter or a digit. Heads whose reason phrase has two bytes and whose first name
starts with a letter or a digit come back as they were sent, and no others do.
-/

import Sheep.ResponseTrail

namespace Sheep

open ScanLoop

namespace ResponseParser

/-! ### Heads of responses without a body of their own -/

/-- A printable ASCII byte. -/
abbrev Printable (byte : Byte) : Prop := 32 ≤ byte.toNat ∧ byte.toNat ≤ 126

/-- A byte of an HTTP token. -/
def isTokenChar (byte : Byte) : Bool :=
  isAlnum byte || (ascii "!#$%&'*+-.^_`|~").contains byte

/-- A status line and header lines that say nothing about the body. -/
structure PlainHead where
  line : StatusLine
  lines : List HeaderLine
deriving DecidableEq, Repr

namespace PlainHead

def head (plain : PlainHead) : ResponseHead := ⟨plain.line, [], plain.lines⟩

def bytes (plain : PlainHead) : List Byte := plain.head.bytes

structure WellFormed (plain : PlainHead) : Prop where
  version : IsVersion plain.line.version
  code : plain.line.code.length = 3
  digits : ∀ byte ∈ plain.line.code, isDigit byte = true
  reason : plain.line.reason ≠ []
  printable : ∀ byte ∈ plain.line.reason, Printable byte
  nonempty : plain.lines ≠ []
  spaced : ∀ header ∈ plain.lines, header.spaced = true
  names : ∀ header ∈ plain.lines, header.name ≠ [] ∧ ∀ byte ∈ header.name, isTokenChar byte = true
  values : ∀ header ∈ plain.lines, header.value ≠ [] ∧ ∀ byte ∈ header.value, Printable byte
  noBody : ∀ header ∈ plain.lines,
    header.name ≠ ascii "Transfer-Encoding" ∧ header.name ≠ ascii "Content-Length"

/-- The parser gets into the reason phrase and into the first header name. -/
structure Entered (plain : PlainHead) : Prop where
  two : 2 ≤ plain.line.reason.length
  alnum : ∀ header ∈ plain.lines.head?, ∀ byte ∈ header.name.head?, isAlnum byte = true

/-- The response stores the head. -/
structure Stored (plain : PlainHead) (buffer : List Byte) (res : Response) : Prop where
  status : StatusRead plain.line buffer res
  statusCode : res.statusCode = decimalValue plain.line.code
  headers : List.Forall₂ (HeaderRead buffer) res.headers plain.lines

end PlainHead

/-- The head is stored as it was sent, whatever the parser returns. -/
def HeadRoundTrip (after rest : List Byte) (plain : PlainHead) : Prop :=
  plain.Stored (plain.bytes ++ rest) (parse after .fresh (plain.bytes ++ rest)).response

theorem plain_of_printable {byte : Byte} (printable : Printable byte) : Plain byte := by
  refine Bool.eq_false_iff.mpr fun control => ?_
  rw [isHttpControl_iff] at control
  omega

theorem plain_of_isTokenChar {byte : Byte} (token : isTokenChar byte = true) :
    Plain byte ∧ byte ≠ chr ':' := by
  rcases Bool.or_eq_true_iff.mp token with alnum | mark
  · refine ⟨plain_of_isAlnum alnum, ?_⟩
    rintro rfl
    exact absurd alnum (by decide)
  · have marks : ∀ byte ∈ ascii "!#$%&'*+-.^_`|~", Plain byte ∧ byte ≠ chr ':' := by
      decide +kernel
    exact marks byte (List.contains_iff_mem.mp mark)

theorem token_of_forall {kind : Byte → Prop} {text : List Byte} (nonempty : text ≠ [])
    (all : ∀ byte ∈ text, kind byte) : Token kind kind text := by
  obtain ⟨first, rest, rfl⟩ := List.exists_cons_of_ne_nil nonempty
  exact List.forall_mem_cons.mp all

section Good

variable {plain : PlainHead}

theorem PlainHead.WellFormed.goodLine (good : plain.WellFormed) {header : HeaderLine}
    (member : header ∈ plain.lines) : GoodLine header := by
  obtain ⟨nonempty, token⟩ := good.names header member
  obtain ⟨valued, printable⟩ := good.values header member
  constructor
  · obtain ⟨first, rest, same⟩ := List.exists_cons_of_ne_nil nonempty
    rw [same] at token ⊢
    obtain ⟨starts, others⟩ := List.forall_mem_cons.mp token
    exact ⟨(plain_of_isTokenChar starts).1,
      fun byte inRest => plain_of_isTokenChar (others byte inRest)⟩
  · rw [good.spaced header member]
    obtain ⟨first, rest, same⟩ := List.exists_cons_of_ne_nil valued
    rw [same] at printable ⊢
    obtain ⟨starts, others⟩ := List.forall_mem_cons.mp printable
    exact ⟨⟨plain_of_printable starts, fun unspaced => by cases unspaced⟩,
      fun byte inRest => plain_of_printable (others byte inRest)⟩

theorem PlainHead.WellFormed.head (good : plain.WellFormed) (entered : plain.Entered) :
    plain.head.WellFormed where
  line := {
    version := good.version
    code := token_of_forall (List.ne_nil_of_length_pos (by
      have three : plain.head.line.code.length = 3 := good.code
      omega)) good.digits
    reason := token_of_forall good.reason fun byte member =>
      plain_of_printable (good.printable byte member)
    two := entered.two }
  junk := fun _ member => absurd member List.not_mem_nil
  lines := fun _ member => good.goodLine member
  alnum := entered.alnum

theorem PlainHead.WellFormed.noChunks (good : plain.WellFormed) :
    plain.lines.any announcesChunks = false := by
  refine List.any_eq_false.mpr fun header member announces => ?_
  have typed := (Bool.and_eq_true _ _ ▸ announces : _ ∧ _).1
  exact (good.noBody header member).1 (beq_iff_eq.mp typed)

end Good

/-! ### The status code -/

theorem foldl_decimal_lt {digits : List Byte} (allDigits : ∀ byte ∈ digits, isDigit byte = true)
    (start : Nat) :
    digits.foldl (fun value byte => value * 10 + (byte.toNat - 48)) start <
      (start + 1) * 10 ^ digits.length := by
  induction digits generalizing start with
  | nil => simp
  | cons digit rest inductionHypothesis =>
    obtain ⟨isDigit, others⟩ := List.forall_mem_cons.mp allDigits
    rw [isDigit_iff] at isDigit
    have later := inductionHypothesis others (start * 10 + (digit.toNat - 48))
    rw [List.foldl_cons, List.length_cons, Nat.pow_succ, Nat.mul_comm (10 ^ rest.length),
      ← Nat.mul_assoc]
    exact lt_of_lt_of_le later (Nat.mul_le_mul_right _ (by omega))

/-- Three digits are converted to their value. -/
theorem codeNumber_of_three {code : List Byte} (three : code.length = 3)
    (digits : ∀ byte ∈ code, isDigit byte = true) : codeNumber code = decimalValue code := by
  have small : decimalValue code < 1 * 10 ^ 3 := by
    have bound := foldl_decimal_lt digits 0
    rw [three] at bound
    exact bound
  rw [codeNumber, min_eq_right (by omega), Int.bmod_eq_of_le (by omega) (by omega)]

variable {after before ahead : List Byte} {curChar : Byte} {l : Locals}

theorem finishHeaderValue_number (memory before : List Byte) (it : Int) (l : Locals) :
    ∃ l' notes, finishHeaderValue memory before it l = .go l' notes ∧ l'.state = .headerR ∧
      l'.res.statusCode = l.res.statusCode := by
  unfold finishHeaderValue
  simp only
  split
  · exact ⟨_, _, rfl, rfl, rfl⟩
  · split
    · exact ⟨_, _, rfl, rfl, rfl⟩
    · exact ⟨_, _, rfl, rfl, rfl⟩

/-- Past the status line the status code stays. -/
theorem turn_number (past : ¬ l.state.InStatus) :
    (turn after before curChar ahead l).Leads
      (fun _ next => ¬ next.state.InStatus ∧ next.res.statusCode = l.res.statusCode)
      (fun outcome => outcome.response.statusCode = l.res.statusCode) := by
  obtain ⟨state, prevIt, headerName, contentLength, newChunkSize, res⟩ := l
  cases state
  case headerValueStart =>
    simp only [turn]
    split
    · exact ⟨past, rfl⟩
    · split
      · obtain ⟨l', notes, turned, state, same⟩ := finishHeaderValue_number
          (before ++ curChar :: ahead ++ after) before before.length
          ⟨.headerValueStart, prevIt, headerName, contentLength, newChunkSize, res⟩
        rw [turned]
        exact ⟨by simp [state, State.InStatus], same⟩
      · rfl
  case chunkDataSizeRn =>
    simp only [turn, takeChunk]
    split
    · exact ⟨by simp [State.InStatus], rfl⟩
    · rfl
  case chunkDataSize =>
    simp only [turn]
    split
    · exact ⟨past, rfl⟩
    · split
      · split
        · rfl
        · split
          · exact ⟨by simp [State.InStatus], rfl⟩
          · exact ⟨by simp [State.InStatus], rfl⟩
      · rfl
  all_goals
    simp only [turn]
    repeat' split
    all_goals first
      | rfl
      | (refine absurd ?_ past; simp [State.InStatus]; done)
      | (refine ⟨?_, rfl⟩; simp [State.InStatus])

/-- The status code the parser stores, whatever follows the status line. -/
theorem number_of_parse (after : List Byte) (line : StatusLine) (good : line.WellFormed)
    (more : List Byte) :
    (parse after .fresh (line.bytes ++ more)).response.statusCode = codeNumber line.code := by
  obtain ⟨l, inside, state, _, _, number⟩ := (runs_statusLine line good).feed (more ++ [])
  have past : ¬ l.state.InStatus := by simp [state, State.InStatus]
  have leads : (feed (turn after) ([] ++ line.bytes) more [] 0 l).Leads
      (fun _ next => ¬ next.state.InStatus ∧ next.res.statusCode = l.res.statusCode)
      (fun outcome => outcome.response.statusCode = l.res.statusCode) :=
    feed_invariant (fun _ _ (next : Locals) => ¬ next.state.InStatus ∧
        next.res.statusCode = l.res.statusCode) ⟨past, rfl⟩
      (fun _ _ _ _ _ holds => (turn_number holds.1).mono
        (fun _ _ kept => ⟨kept.1, kept.2.trans holds.2⟩) fun _ kept => kept.trans holds.2)
      (fun _ _ _ _ holds => holds)
  rw [parse, run, feed_append_of_inside inside, ← number]
  cases ended : feed (turn after) ([] ++ line.bytes) more [] 0 l with
  | left outcome =>
    rw [ended] at leads
    exact leads
  | inside skip next =>
    rw [ended] at leads
    cases skip with
    | zero => exact leads.2
    | succ skip => exact leads.2

/-! ### The first header name -/

/-- The response holds header lines, of which the first starts with a letter or a digit. -/
def HoldsLines (before : List Byte) (res : Response) : Prop :=
  ∃ lines : List HeaderLine, List.Forall₂ (HeaderRead before) res.headers lines ∧
    ∀ header ∈ lines.head?, ∀ byte ∈ header.name.head?, isAlnum byte = true

theorem HoldsLines.append {res : Response} (holds : HoldsLines before res) (more : List Byte) :
    HoldsLines (before ++ more) res := by
  obtain ⟨lines, read, alnum⟩ := holds
  exact ⟨lines, List.Forall₂.imp (fun _ _ one => one.append more) read, alnum⟩

theorem HoldsLines.of_same {res res' : Response} (holds : HoldsLines before res)
    (same : res'.headers = res.headers) : HoldsLines before res' := by
  obtain ⟨lines, read, alnum⟩ := holds
  exact ⟨lines, same ▸ read, alnum⟩

/-- Only the end of a header value changes the headers. -/
theorem turn_headers (after before ahead : List Byte) (curChar : Byte) (l : Locals) :
    (turn after before curChar ahead l).Leads
      (fun _ next => next.res.headers = l.res.headers ∨ next.state = .headerR)
      (fun outcome => outcome.response.headers = l.res.headers) := by
  obtain ⟨state, prevIt, headerName, contentLength, newChunkSize, res⟩ := l
  cases state
  case headerValueStart =>
    simp only [turn]
    split
    · exact Or.inl rfl
    · split
      · obtain ⟨l', notes, turned, state, _⟩ := finishHeaderValue_number
          (before ++ curChar :: ahead ++ after) before before.length
          ⟨.headerValueStart, prevIt, headerName, contentLength, newChunkSize, res⟩
        rw [turned]
        exact Or.inr state
      · rfl
  case chunkDataSizeRn =>
    simp only [turn, takeChunk]
    split
    · exact Or.inl rfl
    · rfl
  all_goals
    simp only [turn]
    repeat' split
    all_goals first
      | rfl
      | exact Or.inl rfl

theorem turn_holdsLines {memory : List Byte} (whole : memory = before ++ curChar :: ahead ++ after)
    (trail : Trail memory before 0 l) (holds : HoldsLines before l.res) :
    (turn after before curChar ahead l).Leads
      (fun skip next => Trail memory (before ++ [curChar]) skip next ∧
        HoldsLines (before ++ [curChar]) next.res)
      (fun outcome => HoldsLines before outcome.response) := by
  refine ((turn_trail whole trail).and (turn_headers after before ahead curChar l)).mono ?_ ?_
  · rintro skip next ⟨trail', same | state⟩
    · exact ⟨trail', (holds.append _).of_same same⟩
    · refine ⟨trail', ?_⟩
      rcases trail' with ⟨jumping, _⟩ | ⟨_, ⟨inStatus, _⟩ | header | body⟩
      · rw [state] at jumping
        cases jumping
      · simp [state, State.InStatus] at inStatus
      · rw [HeaderTrail, state] at header
        obtain ⟨head, done, _⟩ := header
        exact ⟨head.lines, done.read.headers, done.good.alnum⟩
      · rw [BodyTrail, state] at body
        exact absurd body id
  · rintro outcome ⟨_, same⟩
    exact holds.of_same same

/-- Whatever the parser returns, the first header name it has stored starts with a letter or a
digit. -/
theorem holdsLines_of_parse (after buf : List Byte) :
    HoldsLines buf (parse after .fresh buf).response := by
  have leads : (feed (turn after) [] buf [] 0 (start .fresh)).Leads
      (fun skip next => Trail (buf ++ [] ++ after) ([] ++ buf) skip next ∧
        HoldsLines ([] ++ buf) next.res)
      (fun outcome => HoldsLines buf outcome.response) := by
    refine feed_invariant (fun before skip next => Trail (buf ++ [] ++ after) before skip next ∧
      HoldsLines before next.res) ⟨trail_start _, [], .nil, fun _ first => by cases first⟩ ?_ ?_
    · rintro before' symbol after' l' split ⟨trail, holds⟩
      refine (turn_holdsLines (by rw [split, List.nil_append]) trail holds).mono
        (fun _ _ kept => kept) fun outcome kept => ?_
      have grown := kept.append (symbol :: after')
      rwa [split, List.nil_append, List.append_nil] at grown
    · rintro before' symbol skip' l' ⟨trail, holds⟩
      exact ⟨trail.skipped symbol, holds.append _⟩
  rw [parse, run]
  cases ended : feed (turn after) [] buf [] 0 (start .fresh) with
  | left outcome =>
    rw [ended] at leads
    exact leads
  | inside skip next =>
    rw [ended] at leads
    cases skip with
    | zero => exact leads.2
    | succ skip => exact leads.2

/-! ### The round trip -/

/-- A reason phrase of one byte is refused at the end of the line, before it is stored. -/
theorem status_of_oneByte (after rest : List Byte) {version code : List Byte} {byte : Byte}
    (isVersion : IsVersion version) (isCode : IsCode code) (plain : Plain byte) :
    (parse after .fresh (StatusLine.bytes ⟨version, code, [byte]⟩ ++ rest)).response.status =
      .empty := by
  have opening : Runs (turn after) []
      (ascii "HTTP/" ++ ((version ++ [SP]) ++ ((code ++ [SP]) ++ [byte]))) (start .fresh)
      fun _ l => l.state = .statusMsgStart ∧ l.res.status = .empty := by
    refine Runs.append runs_protocol ?_
    rintro _ rfl
    refine Runs.append (runs_version rfl isVersion) ?_
    rintro _ rfl
    refine Runs.append (runs_code rfl isCode) ?_
    rintro _ rfl
    refine runs_cons fun ahead => ?_
    simp only [turn, plain, Bool.not_false, if_true, onward_go]
    exact runs_nil ⟨rfl, rfl⟩
  have shape : StatusLine.bytes ⟨version, code, [byte]⟩ ++ rest =
      (ascii "HTTP/" ++ ((version ++ [SP]) ++ ((code ++ [SP]) ++ [byte]))) ++
        (CR :: LF :: rest) := by simp [StatusLine.bytes]
  have leaves (l : Locals) (state : l.state = .statusMsgStart) :
      feed (turn after) ([] ++ (ascii "HTTP/" ++ ((version ++ [SP]) ++ ((code ++ [SP]) ++ [byte]))))
        (CR :: LF :: rest) [] 0 l = .left (.returned .error l.res) := by
    have refused (before ahead : List Byte) :
        turn after before CR ahead l = .leave (.returned .error l.res) := by
      have control : isHttpControl CR = true := by decide
      rw [turn]
      simp only [state, control, Bool.not_true, Bool.false_eq_true, if_false]
    exact feed_cons_leave (refused _ _)
  obtain ⟨outcome, left, same⟩ :
      ∃ outcome, feed (turn after) []
        ((ascii "HTTP/" ++ ((version ++ [SP]) ++ ((code ++ [SP]) ++ [byte]))) ++ (CR :: LF :: rest))
        [] 0 (start .fresh) = .left outcome ∧ outcome.response.status = .empty :=
    opening.feed_left fun l both => ⟨_, leaves l both.1, both.2⟩
  rw [shape, parse_of_left left, same]

/-- The round trip of response heads: they are stored as they were sent just if the parser gets
into the reason phrase and into the first header name, and then they are completed. -/
theorem headRoundTrip_iff_entered (after : List Byte) (plain : PlainHead)
    (good : plain.WellFormed) (rest : List Byte) (nonempty : rest ≠ []) :
    (HeadRoundTrip after rest plain ↔ plain.Entered) ∧
    (plain.Entered → (parse after .fresh (plain.bytes ++ rest)).verdict = some .completed) := by
  have code : IsCode plain.line.code := token_of_forall (List.ne_nil_of_length_pos (by
    rw [good.code]
    decide)) good.digits
  have completed (entered : plain.Entered) :
      ∃ res, parse after .fresh (plain.bytes ++ rest) = .returned .completed res ∧
        StatusRead plain.line (plain.bytes ++ rest) res ∧
        List.Forall₂ (HeaderRead (plain.bytes ++ rest)) res.headers plain.lines := by
    obtain ⟨l, inside, state, read, _⟩ :=
      feed_head after plain.head (good.head entered) good.nonempty rest
    have bodyState : l.state = .dataStart := by
      have noChunks : plain.head.lines.any announcesChunks = false := good.noChunks
      rw [state, ResponseHead.bodyState, noChunks]
      rfl
    obtain ⟨byte, others, rfl⟩ := List.exists_cons_of_ne_nil nonempty
    have stored := read.append (byte :: others)
    refine ⟨{ l.res with content := .range plain.bytes.length (plain.bytes.length +
      l.contentLength) }, parse_of_left ?_, ⟨stored.status.version, stored.status.codestr,
        stored.status.status⟩, stored.headers⟩
    rw [PlainHead.bytes, feed_append_of_inside (by rw [List.append_nil]; exact inside),
      feed_cons_leave]
    rw [turn]
    simp only [bodyState]
    rfl
  refine ⟨⟨fun stored => ⟨?_, ?_⟩, fun entered => ?_⟩, fun entered => ?_⟩
  · by_contra short
    obtain ⟨byte, same⟩ : ∃ byte, plain.line.reason = [byte] := by
      refine List.length_eq_one_iff.mp ?_
      have some := List.length_pos_iff.mpr good.reason
      omega
    have status := stored.status.status
    have none := status_of_oneByte after
      (headerBytes plain.lines ++ crlf ++ rest) good.version code
      (plain_of_printable (good.printable byte (by simp [same])))
    have shape : StatusLine.bytes ⟨plain.line.version, plain.line.code, [byte]⟩ ++
        (headerBytes plain.lines ++ crlf ++ rest) = plain.bytes ++ rest := by
      rw [← same]
      simp [PlainHead.bytes, PlainHead.head, ResponseHead.bytes]
    rw [shape] at none
    rw [none, same] at status
    cases status
  · obtain ⟨lines, read, alnum⟩ := holdsLines_of_parse after (plain.bytes ++ rest)
    have both := stored.headers
    intro header first byte starts
    obtain ⟨others, sameLines⟩ := List.head?_eq_some_iff.mp first
    rw [sameLines] at both
    generalize (parse after .fresh (plain.bytes ++ rest)).response.headers = headers at both read
    cases both with
    | cons here later =>
      cases read with
      | cons here' later' =>
        have sameName := Option.some.inj (here.name.symm.trans here'.name)
        exact alnum _ rfl byte (sameName ▸ starts)
  · obtain ⟨res, parsed, status, headers⟩ := completed entered
    have number := number_of_parse after plain.line (good.head entered).line
      (headerBytes plain.lines ++ crlf ++ rest)
    have shape : plain.line.bytes ++ (headerBytes plain.lines ++ crlf ++ rest) =
        plain.bytes ++ rest := by
      simp [PlainHead.bytes, PlainHead.head, ResponseHead.bytes]
    rw [shape] at number
    refine ⟨?_, ?_, ?_⟩
    · rw [parsed]
      exact status
    · rw [number, codeNumber_of_three good.code good.digits]
    · rw [parsed]
      exact headers
  · obtain ⟨res, parsed, _⟩ := completed entered
    rw [parsed]
    rfl

/-- A head with one header line. -/
def oneLineHead (reason name : List Byte) : PlainHead where
  line := { version := ascii "1.1", code := ascii "200", reason }
  lines := [{ name, spaced := true, value := ascii "b" }]

theorem headRoundTrip_iff_entered_oneLine :
    (oneLineHead (ascii "OK") (ascii "a")).WellFormed ∧
    (HeadRoundTrip [] (ascii "x") (oneLineHead (ascii "OK") (ascii "a")) ↔
      (oneLineHead (ascii "OK") (ascii "a")).Entered) := by
  have good : (oneLineHead (ascii "OK") (ascii "a")).WellFormed :=
    ⟨by decide, by decide, by decide +kernel, by decide, by decide +kernel, by decide, by decide,
      by decide +kernel, by decide +kernel, by decide⟩
  exact ⟨good, (headRoundTrip_iff_entered [] _ good (ascii "x") (by decide)).1⟩

/-- A reason phrase of one letter is not stored. -/
theorem not_headRoundTrip_oneLetter :
    (oneLineHead (ascii "K") (ascii "a")).WellFormed ∧
    ¬ HeadRoundTrip [] (ascii "x") (oneLineHead (ascii "K") (ascii "a")) := by
  refine ⟨⟨by decide, by decide, by decide +kernel, by decide, by decide +kernel, by decide,
    by decide, by decide +kernel, by decide +kernel, by decide⟩, fun stored => ?_⟩
  exact absurd stored.status.status (by decide)

end ResponseParser

end Sheep
