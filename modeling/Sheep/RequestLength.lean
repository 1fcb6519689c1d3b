/-
This file follows the announced length of a body. A length text is converted where
it stands in the buffer, so what it becomes may depend on what follows it, and no
text is refused. The countdown takes one off before it compares with zero, and
wraps where it starts at zero.
-/

import Sheep.RequestBody

namespace Sheep

open ScanLoop

namespace RequestParser

/-! ### The size in force -/

/-- What a length text is converted to where the memory goes on like this. -/
def convert (memory : List Byte) : UInt64 := UInt64.ofInt (atoi memory)

/-- The size in force after some header lines, with the memory that follows them. -/
def sizeAfter (size : UInt64) : List HeaderLine → List Byte → UInt64
  | [], _ => size
  | header :: rest, memory =>
      sizeAfter (if header.name = ascii "Content-Length" then
        convert (header.value ++ crlf ++ headerBytes rest ++ memory) else size) rest memory

variable {before : List Byte} {l : Locals}

/-- The end of a header value stores the size if it is a length, and leaves it otherwise. -/
theorem finishHeaderValue_size {memory name : List Byte} {it : Int} {headers : List Request.Header}
    {header : Request.Header} (stored : l.req.headers = headers ++ [header])
    (named : header.name.text before = some name) {next : Locals} {notes : List StringView}
    (goes : finishHeaderValue memory before it l = .go next notes) :
    if name = ascii "Content-Length" then
      next.remainingContentSize = convert (memory.drop l.prevIt.toNat) ∧
        next.req.contentSize = convert (memory.drop l.prevIt.toNat)
    else next.remainingContentSize = l.remainingContentSize ∧
      next.req.contentSize = l.req.contentSize := by
  have isType : header.name.same before (.elsewhere (ascii "Content-Type")) = true ↔
      name = ascii "Content-Type" := StringView.same_iff_of_text named rfl
  have isLength : header.name.same before (.elsewhere (ascii "Content-Length")) = true ↔
      name = ascii "Content-Length" := StringView.same_iff_of_text named rfl
  unfold finishHeaderValue at goes
  simp only [Request.setLastValue, stored, List.getLast?_concat, Option.map_some,
    List.dropLast_concat] at goes
  split at goes
  · rename_i multipart
    rw [Bool.and_eq_true, isType] at multipart
    rw [if_neg (by rw [multipart.1]; decide)]
    cases goes
    exact ⟨rfl, rfl⟩
  · split at goes
    · rename_i length
      rw [if_pos (isLength.mp length)]
      cases goes
      exact ⟨rfl, rfl⟩
    · rename_i other
      rw [if_neg fun length => other (isLength.mpr length)]
      cases goes
      exact ⟨rfl, rfl⟩

/-- A header line stores the size if it is a length, and leaves it otherwise. -/
theorem feed_headerLine {line : RequestLine} {lines : List HeaderLine} {header : HeaderLine}
    (good : GoodLine header) (read : HeadRead line lines before l.remainingContentSize l.req)
    (state : l.state = .versionEndRn ∨ l.state = .headerRn) (after ahead : List Byte) :
    ∃ l', feed (turn after) before header.bytes ahead 0 l = .inside 0 l' ∧
      l'.state = .headerRn ∧
      HeadRead line (lines ++ [header]) (before ++ header.bytes) l'.remainingContentSize l'.req ∧
      if header.name = ascii "Content-Length" then
        l'.remainingContentSize = convert (header.value ++ crlf ++ ahead ++ after) ∧
          l'.req.contentSize = convert (header.value ++ crlf ++ ahead ++ after)
      else l'.remainingContentSize = l.remainingContentSize ∧
        l'.req.contentSize = l.req.contentSize := by
  have whole : Runs (turn after) before header.bytes l _ := runs_headerLine good read state
  have opening : Runs (turn after) before _ l _ := runs_headerOpen good state
  obtain ⟨l', inside, state', read'⟩ := whole.feed ahead
  obtain ⟨l₁, inside₁, rfl⟩ := opening.feed (crlf ++ ahead)
  refine ⟨l', inside, state', read', ?_⟩
  have shape : header.bytes = header.name ++ (colonText header.spaced ++ header.value) ++ crlf := by
    simp [HeaderLine.bytes]
  have cut : before ++ (header.name ++ (colonText header.spaced ++ header.value)) =
      before ++ header.name ++ colonText header.spaced ++ header.value := by simp
  have finished := finishHeaderValue_read (colonText header.spaced) (LF :: (ahead ++ after)) header
    read
  obtain ⟨next, notes, goes, nextState, _⟩ := finished.exists_go
  have turned : turn after (before ++ header.name ++ colonText header.spaced ++ header.value) CR
      ([LF] ++ ahead) ⟨.headerValueStart,
        (before ++ header.name ++ colonText header.spaced).length, l.remainingContentSize,
        { l.req with headers := l.req.headers ++
          [{ name := .range before.length (before ++ header.name).length }] }⟩ =
        .go next notes := by
    rw [← goes]
    simp [turn]
  have sizes := finishHeaderValue_size rfl
    (StringView.text_range before header.name (colonText header.spaced ++ header.value) (by simp)
      rfl rfl) goes
  rw [shape, feed_append_of_inside inside₁, cut, feed_cons_go turned] at inside
  have ended : turn after (before ++ header.name ++ colonText header.spaced ++ header.value ++ [CR])
      LF ([] ++ ahead) next = .go { next with state := .headerRn } := by
    simp only [turn, nextState, if_true]
  rw [feed_cons_go ended, feed_nil] at inside
  cases inside
  have memory : (before ++ header.name ++ colonText header.spaced ++ header.value ++
      CR :: LF :: (ahead ++ after)).drop
        ((before ++ header.name ++ colonText header.spaced).length : Int).toNat =
      header.value ++ crlf ++ ahead ++ after := by
    rw [Int.toNat_natCast, List.append_assoc (before ++ header.name ++ _), List.drop_left]
    simp [crlf]
  rw [memory] at sizes
  exact sizes

/-- Header lines store the size in force. -/
theorem feed_headerLines {line : RequestLine} {lines : List HeaderLine} (more : List HeaderLine)
    (good : ∀ header ∈ more, GoodLine header)
    (read : HeadRead line lines before l.remainingContentSize l.req)
    (state : l.state = .versionEndRn ∨ l.state = .headerRn) (after ahead : List Byte) :
    ∃ l', feed (turn after) before (headerBytes more) ahead 0 l = .inside 0 l' ∧
      (l'.state = .versionEndRn ∨ l'.state = .headerRn) ∧
      HeadRead line (lines ++ more) (before ++ headerBytes more) l'.remainingContentSize l'.req ∧
      l'.remainingContentSize = sizeAfter l.remainingContentSize more (ahead ++ after) := by
  induction more generalizing lines before l with
  | nil => exact ⟨l, rfl, state, by simpa [headerBytes] using read, rfl⟩
  | cons header rest inductionHypothesis =>
    obtain ⟨first, others⟩ := List.forall_mem_cons.mp good
    obtain ⟨l₁, inside, state₁, read₁, sizes⟩ :=
      feed_headerLine first read state after (headerBytes rest ++ ahead)
    obtain ⟨l', inside', state', read', remaining⟩ :=
      inductionHypothesis others read₁ (Or.inr state₁)
    refine ⟨l', ?_, state', ?_, ?_⟩
    · rw [headerBytes_cons, feed_append_of_inside inside, inside']
    · rw [headerBytes_cons]
      simpa using read'
    · rw [remaining, sizeAfter]
      congr 1
      split at sizes
      · rename_i named
        rw [if_pos named, sizes.1]
        simp
      · rename_i other
        rw [if_neg other, sizes.1]

/-- A request line and header lines store the size in force. -/
theorem feed_lines {line : RequestLine} (goodLine : line.WellFormed) (lines : List HeaderLine)
    (good : ∀ header ∈ lines, GoodLine header) (size : UInt64) (after ahead : List Byte) :
    ∃ l', feed (turn after) [] (line.bytes ++ headerBytes lines) ahead 0 (start (.fresh size)) =
        .inside 0 l' ∧
      (l'.state = .versionEndRn ∨ l'.state = .headerRn) ∧
      HeadRead line lines (line.bytes ++ headerBytes lines) l'.remainingContentSize l'.req ∧
      l'.remainingContentSize = sizeAfter 0 lines (ahead ++ after) := by
  have opening : Runs (turn after) [] line.bytes (start (.fresh size)) _ :=
    runs_requestLine line goodLine (.fresh size)
  obtain ⟨l, inside, read, state, remaining, rest⟩ := opening.feed (headerBytes lines ++ ahead)
  obtain ⟨l', inside', state', read', remaining'⟩ := feed_headerLines lines good
    (headRead_start read remaining rest) (Or.inl state) after ahead
  refine ⟨l', ?_, state', read', ?_⟩
  · rw [feed_append_of_inside inside, inside']
  · rw [remaining', remaining]

/-- Where something follows a head, the size in force is what it counts down from. -/
theorem feed_headSize {head : RequestHead} (good : head.WellFormed) (nonempty : head.lines ≠ [])
    {rest : List Byte} (restNonempty : rest ≠ []) (size : UInt64) (after : List Byte) :
    ∃ l, feed (turn after) [] head.bytes rest 0 (start (.fresh size)) = .inside 0 l ∧
      l.state = .headerRnrn ∧
      HeadRead head.line head.lines head.bytes l.remainingContentSize l.req ∧
      l.remainingContentSize = sizeAfter 0 head.lines (crlf ++ rest ++ after) := by
  obtain ⟨l, inside, state, read⟩ := feed_head after head good nonempty size restNonempty
  refine ⟨l, inside, state, read, ?_⟩
  obtain ⟨l₁, inside₁, state₁, _, remaining⟩ :=
    feed_lines good.line head.lines good.lines size after (crlf ++ rest)
  have shape : head.bytes = head.line.bytes ++ headerBytes head.lines ++ crlf := by
    simp [RequestHead.bytes]
  obtain ⟨_, prevIt, _, req⟩ := l₁
  rw [shape, feed_append_of_inside inside₁] at inside
  rcases state₁ with rfl | rfl
  · -- without a header line the head ends here
    simp [feed_cons, turn] at inside
  · simp only [crlf, feed_cons, turn, if_true, List.nil_append, restNonempty, if_false,
      feed_nil] at inside
    cases inside
    rw [← remaining]

/-! ### The countdown -/

/-- The next turn takes one off the size that remains. -/
def Decrements (before : List Byte) (l : Locals) : Prop :=
  l.state = .postDataStart ∨
    (l.state = .headerRnrn ∧ (l.req.method.same before (.elsewhere (ascii "POST")) ||
      l.req.method.same before (.elsewhere (ascii "PUT"))) = true ∧ l.req.isMultipart = false)

/-- Nothing is taken off zero. -/
def NeverWraps (after : List Byte) (size : UInt64) (buf : List Byte) : Prop :=
  ∀ read symbol rest l, buf = read ++ symbol :: rest →
    feed (turn after) [] read (symbol :: rest) 0 (start (.fresh size)) = .inside 0 l →
    Decrements read l → l.remainingContentSize ≠ 0

/-- A head of a request with a body of length zero: no length is announced, or zero is. -/
structure Bodyless (head : RequestHead) : Prop where
  good : head.WellFormed
  hasBody : HasBody head.line.method
  single : boundaryOf head.lines = none
  length : ∀ digits ∈ lengthOf head.lines, digits ≠ [] ∧
    (∀ byte ∈ digits, isDigit byte = true) ∧ decimalValue digits = 0

/-- A request with a body of length zero is complete where something follows it. -/
def CompletesEmpty (after : List Byte) (size : UInt64) (buf : List Byte) : Prop :=
  ∀ head rest, Bodyless head → rest ≠ [] → buf = head.bytes ++ rest →
    ∃ req, parse after (.fresh size) buf = .returned .completed req ∧
      req.content.text buf = some []

/-- A head with header lines, for a single body of size zero, and something behind it. -/
def ZeroBody (after buf : List Byte) : Prop :=
  ∃ (head : RequestHead) (rest : List Byte), head.WellFormed ∧ head.lines ≠ [] ∧
    HasBody head.line.method ∧
    boundaryOf head.lines = none ∧ rest ≠ [] ∧ buf = head.bytes ++ rest ∧
    sizeAfter 0 head.lines (crlf ++ rest ++ after) = 0

/-- The countdown goes on as long as something remains. -/
theorem turn_counts (after before ahead : List Byte) (curChar : Byte) (l : Locals) :
    (turn after before curChar ahead l).Leads
      (fun skip next => skip = 0 ∧
        (next.state = .postDataStart → next.remainingContentSize ≠ 0)) (fun _ => True) := by
  obtain ⟨state, prevIt, remaining, req⟩ := l
  cases state
  case headerRnrn =>
    simp only [turn]
    repeat' split
    all_goals first | trivial | exact ⟨rfl, fun _ => ‹_›⟩ | exact ⟨rfl, fun body => by cases body⟩
  case postDataStart =>
    simp only [turn]
    split
    · trivial
    · exact ⟨rfl, fun _ => ‹_›⟩
  all_goals
    simp only [turn, finishHeaderValue, matchBoundaryBackwards]
    repeat' split
    all_goals first | trivial | exact ⟨rfl, fun body => by cases body⟩

theorem remaining_of_postData {after read ahead : List Byte} {skip : Nat} {size : UInt64}
    {l : Locals}
    (inside : feed (turn after) [] read ahead 0 (start (.fresh size)) = .inside skip l)
    (state : l.state = .postDataStart) : l.remainingContentSize ≠ 0 := by
  have leads : (feed (turn after) [] read ahead 0 (start (.fresh size))).Leads
      (fun skip (l : Locals) => skip = 0 ∧
        (l.state = .postDataStart → l.remainingContentSize ≠ 0)) (fun _ => True) :=
    feed_invariant_of_no_jump
      (fun _ (l : Locals) => l.state = .postDataStart → l.remainingContentSize ≠ 0)
      (fun body => by cases body) fun _ _ _ _ _ _ => turn_counts _ _ _ _ _
  rw [inside] at leads
  exact leads.2 state

/-- Behind the empty line, a whole head has been read. -/
theorem headDone_of_trail {size : UInt64} (trail : Trail size before l)
    (state : l.state = .headerRnrn) : ∃ head : RequestHead,
      HeadDone head before l.remainingContentSize l.req ∧ before = head.bytes := by
  rcases trail with ⟨inLine, _, _⟩ | trail | ⟨body, _⟩ | ⟨head, boundary, body, _, _, _, trail⟩
  · rw [state] at inLine
    simp [State.InLine] at inLine
  · rwa [HeaderTrail, state] at trail
  · rw [state] at body
    cases body
  · rw [BodyTrail, state] at trail
    exact trail.elim

/-- A request without header lines is complete at its empty line, whatever follows. -/
theorem parse_bareHead {head : RequestHead} (good : head.WellFormed) (bare : head.lines = [])
    (after : List Byte) (size : UInt64) (rest : List Byte) :
    ∃ req, parse after (.fresh size) (head.bytes ++ rest) = .returned .completed req ∧
      req.content = .empty := by
  obtain ⟨l, inside, state, read⟩ := (runs_head after head good size).feed ([LF] ++ rest ++ [])
  rw [if_pos bare] at state
  refine ⟨l.req, parse_of_left ?_, read.content⟩
  have shape : head.bytes ++ rest =
      head.line.bytes ++ (headerBytes head.lines ++ [CR]) ++ ([LF] ++ rest) := by
    simp [RequestHead.bytes]
  have ends : turn after ([] ++ (head.line.bytes ++ (headerBytes head.lines ++ [CR]))) LF
      (rest ++ []) l = .leave (.returned .completed l.req) := by
    simp only [turn, state, if_true]
  rw [shape, feed_append_of_inside inside]
  exact feed_cons_leave ends

/-- The countdown never wraps, and requests without a body are complete, just where no head
with a size of zero has something behind it. -/
theorem countdown_iff_not_zeroBody (after : List Byte) (size : UInt64) (buf : List Byte) :
    (NeverWraps after size buf ∧ CompletesEmpty after size buf) ↔ ¬ ZeroBody after buf := by
  constructor
  · rintro ⟨never, _⟩ ⟨head, rest, good, nonempty, hasBody, single, restNonempty, rfl, zero⟩
    obtain ⟨l, inside, state, read, remaining⟩ :=
      feed_headSize good nonempty restNonempty size after
    obtain ⟨symbol, others, rfl⟩ := List.exists_cons_of_ne_nil restNonempty
    refine never head.bytes symbol others l rfl inside (Or.inr ⟨state, ?_, ?_⟩)
      (remaining.trans zero)
    · exact (same_method_iff read.line.method).mpr hasBody
    · rw [read.multipart, single]
      rfl
  · intro fine
    constructor
    · rintro read symbol rest l rfl inside (state | ⟨state, method, single⟩) zero
      · exact remaining_of_postData inside state zero
      · obtain ⟨head, done, rfl⟩ := headDone_of_trail (trail_of_feed inside).2 state
        obtain ⟨l', inside', _, read, remaining⟩ :=
          feed_headSize done.good done.nonempty (List.cons_ne_nil symbol rest) size after
        rw [inside] at inside'
        cases inside'
        refine fine ⟨head, symbol :: rest, done.good, done.nonempty, ?_, ?_, List.cons_ne_nil _ _,
          rfl, remaining.symm.trans zero⟩
        · exact (same_method_iff read.line.method).mp method
        · have none := read.multipart
          rw [single] at none
          exact Option.isNone_iff_eq_none.mp (by rw [← Option.not_isSome, ← none]; rfl)
    · rintro head rest bodyless restNonempty rfl
      by_cases bare : head.lines = []
      · obtain ⟨req, parsed, content⟩ := parse_bareHead bodyless.good bare after size rest
        exact ⟨req, parsed, by rw [content]; rfl⟩
      · refine absurd ⟨head, rest, bodyless.good, bare, bodyless.hasBody, bodyless.single,
          restNonempty, rfl, ?_⟩ fine
        obtain ⟨l, _, _, read, remaining⟩ :=
          feed_headSize bodyless.good bare restNonempty size after
        rw [← remaining]
        cases announced : lengthOf head.lines with
        | none => exact read.noLength announced
        | some digits =>
          obtain ⟨nonempty, allDigits, zero⟩ := bodyless.length digits announced
          rw [(read.length digits announced nonempty allDigits).1, readSize, zero]
          rfl

/-- A post that announces no byte. -/
def emptyPost : RequestHead where
  line := { method := ascii "POST", uri := ascii "/", version := ascii "1" }
  lines := [{ name := ascii "Content-Length", spaced := true, value := ascii "0" }]

theorem bodyless_emptyPost : Bodyless emptyPost where
  good := ⟨⟨by decide, by decide, by decide⟩, fun header member => by
    rw [List.mem_singleton.mp member]
    exact ⟨by decide, by decide⟩⟩
  hasBody := by decide
  single := by decide
  length digits member := by
    cases member
    exact ⟨by decide, Token.forall_mem (by decide), by decide⟩

/-- The byte behind an empty post is taken for the first of a huge body. -/
theorem not_completesEmpty_emptyPost : ¬ ∀ after size buf,
    NeverWraps after size buf ∧ CompletesEmpty after size buf := by
  intro counts
  obtain ⟨req, parsed, _⟩ := (counts [] 0 (emptyPost.bytes ++ ascii "x")).2 emptyPost (ascii "x")
    bodyless_emptyPost (by decide) rfl
  have incomplete : (parse [] (.fresh 0) (emptyPost.bytes ++ ascii "x")).verdict =
      some .inCompleted := by decide +kernel
  rw [parsed] at incomplete
  cases incomplete

/-! ### The text of a length -/

/-- Behind the header line the parse has failed, or the size is the value of a text of digits that
fits an `int`. -/
def ExactLength (after : List Byte) (size : UInt64) (line : RequestLine)
    (lines : List HeaderLine) (header : HeaderLine) (ahead : List Byte) : Prop :=
  match feed (turn after) [] (line.bytes ++ headerBytes (lines ++ [header])) ahead 0
      (start (.fresh size)) with
  | .left outcome => outcome.verdict = some .error
  | .inside _ l => (header.value ≠ [] ∧ (∀ byte ∈ header.value, isDigit byte = true)) ∧
      l.req.contentSize.toNat = decimalValue header.value ∧
      decimalValue header.value ≤ 2 ^ 31 - 1

theorem convert_digits {digits rest : List Byte} (nonempty : digits ≠ [])
    (allDigits : ∀ byte ∈ digits, isDigit byte = true) :
    convert (digits ++ crlf ++ rest) = readSize digits := by
  rw [convert, List.append_assoc, crlf, List.cons_append,
    atoi_digits nonempty allDigits (by decide : ¬ isDigit CR = true)]
  rfl

/-- A length is converted where it stands, and nothing is refused. -/
theorem feed_lengthLine {head : RequestHead} (good : head.WellFormed)
    {front back : List HeaderLine} {header : HeaderLine}
    (split : head.lines = front ++ header :: back)
    (named : header.name = ascii "Content-Length") (after : List Byte) (size : UInt64)
    (ahead : List Byte) :
    ∃ l, feed (turn after) [] (head.line.bytes ++ headerBytes (front ++ [header])) ahead 0
        (start (.fresh size)) = .inside 0 l ∧
      l.req.contentSize = convert (header.value ++ crlf ++ ahead ++ after) := by
  have goodFront : ∀ other ∈ front, GoodLine other := fun other member =>
    good.lines other (by rw [split]; exact List.mem_append_left _ member)
  have goodHeader : GoodLine header := good.lines header (by rw [split]; simp)
  obtain ⟨l, inside, state, read, _⟩ :=
    feed_lines good.line front goodFront size after (header.bytes ++ ahead)
  obtain ⟨l', inside', _, _, sizes⟩ := feed_headerLine goodHeader read state after ahead
  rw [if_pos named] at sizes
  refine ⟨l', ?_, sizes.2⟩
  rw [headerBytes_snoc, ← List.append_assoc, feed_append_of_inside inside]
  exact inside'

/-- A length is exact, whatever stands behind it, just where it is a text of digits that fits an
`int`; no other text is refused. -/
theorem exactLength_iff {head : RequestHead} (good : head.WellFormed) {front back : List HeaderLine}
    {header : HeaderLine} (split : head.lines = front ++ header :: back)
    (named : header.name = ascii "Content-Length") (after : List Byte) (size : UInt64)
    (ahead : List Byte) :
    ExactLength after size head.line front header ahead ↔
      (header.value ≠ [] ∧ ∀ byte ∈ header.value, isDigit byte = true) ∧
        decimalValue header.value ≤ 2 ^ 31 - 1 := by
  obtain ⟨l, inside, converted⟩ := feed_lengthLine good split named after size ahead
  unfold ExactLength
  rw [inside]
  constructor
  · rintro ⟨digits, _, small⟩
    exact ⟨digits, small⟩
  · rintro ⟨⟨nonempty, allDigits⟩, small⟩
    refine ⟨⟨nonempty, allDigits⟩, ?_, small⟩
    rw [converted, List.append_assoc (header.value ++ crlf), convert_digits nonempty allDigits,
      toNat_readSize (by omega)]

theorem exactLength_iff_emptyPost :
    ExactLength [] 0 emptyPost.line [] ⟨ascii "Content-Length", true, ascii "0"⟩ crlf ↔
      (ascii "0" ≠ [] ∧ ∀ byte ∈ ascii "0", isDigit byte = true) ∧
        decimalValue (ascii "0") ≤ 2 ^ 31 - 1 :=
  exactLength_iff bodyless_emptyPost.good rfl rfl [] 0 crlf

/-- A length with a sign is converted as well. -/
theorem not_exactLength_negative : ¬ ∀ (head : RequestHead) (front back : List HeaderLine)
    (header : HeaderLine), head.WellFormed → HasBody head.line.method →
      head.lines = front ++ header :: back → header.name = ascii "Content-Length" →
      (∀ other ∈ front ++ back, other.name ≠ ascii "Content-Length") →
      ∀ after size ahead, ExactLength after size head.line front header ahead := by
  intro exact
  have good : ({ emptyPost with lines := [⟨ascii "Content-Length", true, ascii "-1"⟩] } :
      RequestHead).WellFormed := by
    refine ⟨bodyless_emptyPost.good.line, fun header member => ?_⟩
    rw [List.mem_singleton.mp member]
    exact ⟨by decide, by decide⟩
  have exactly := exact _ [] [] _ good bodyless_emptyPost.hasBody rfl rfl
    (fun other member => absurd member List.not_mem_nil) [] 0 crlf
  obtain ⟨l, inside, _⟩ := feed_lengthLine good
    (show _ = ([] : List HeaderLine) ++ _ :: [] from rfl) rfl [] 0 crlf
  unfold ExactLength at exactly
  rw [inside] at exactly
  exact absurd exactly.1.2 (by decide)

end RequestParser

end Sheep
