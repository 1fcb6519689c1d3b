/-
This file decides for which responses the parser finds the end of the message.
A response is framed if its last byte completes it, with its body stored, and
every proper prefix of it is incomplete. Of the responses of the grammar below
only chunked ones without chunks are framed, and only if all header values are
nonempty and ASCII: the parser needs a byte beyond an empty fixed body, never
stores the length of another, and refuses a chunk whose data has not all arrived
with the buffer.
-/

import Sheep.ResponseChunks

namespace Sheep

open ScanLoop

namespace ResponseParser

/-! ### Messages -/

/-- No control character, as HTTP has it: bytes from `0x80` on are none. -/
abbrev Visible (byte : Byte) : Prop := ¬ (byte.toNat ≤ 31 ∨ byte.toNat = 127)

/-- A header line of a response. A space after the colon is not part of the value. -/
structure VisibleLine (header : HeaderLine) : Prop where
  name : Token (isAlnum · = true) (fun byte => Visible byte ∧ byte ≠ chr ':') header.name
  value : ∀ byte ∈ header.value, Visible byte
  canonical : header.spaced = false → header.value.head? ≠ some SP

/-- A body of a length that is announced, or chunks. -/
inductive MessageBody
  | fixed (content : List Byte)
  | chunked (chunks : List ChunkText)

/-- The last chunk, which is empty. -/
def lastChunk : List Byte := ascii "0" ++ crlf

namespace MessageBody

def bytes : MessageBody → List Byte
  | .fixed content => content
  | .chunked chunks => chunkBytes chunks ++ lastChunk

/-- The header lines say what body follows. -/
def Announced (lines : List HeaderLine) : MessageBody → Prop
  | .fixed content =>
      (∃ header ∈ lines, header.name = ascii "Content-Length" ∧
        Token (isDigit · = true) (isDigit · = true) header.value ∧
        decimalValue header.value = content.length) ∧
      lines.any announcesChunks = false
  | .chunked chunks =>
      lines.any announcesChunks = true ∧ ∀ chunk ∈ chunks, chunk.WellFormed

/-- The response holds the body. -/
def Stored (buffer : List Byte) (res : Response) : MessageBody → Prop
  | .fixed content =>
      res.content.text buffer = some content ∧ res.contentLength = content.length
  | .chunked chunks => List.Forall₂ (ChunkRead buffer) res.chunks chunks

end MessageBody

structure Message where
  line : StatusLine
  lines : List HeaderLine
  body : MessageBody

namespace Message

def head (message : Message) : ResponseHead := ⟨message.line, [], message.lines⟩

def bytes (message : Message) : List Byte := message.head.bytes ++ message.body.bytes

structure WellFormed (message : Message) : Prop where
  line : message.line.WellFormed
  lines : ∀ header ∈ message.lines, VisibleLine header
  nonempty : message.lines ≠ []
  body : message.body.Announced message.lines

end Message

/-- The message is complete at its last byte, with its body stored, and not before. -/
def Framing (after : List Byte) (message : Message) : Prop :=
  (∃ res, parse after .fresh message.bytes = .returned .completed res ∧
    message.body.Stored message.bytes res) ∧
  ∀ read, read <+: message.bytes → read ≠ message.bytes →
    (parse after .fresh read).verdict = some .inCompleted

/-! ### Header lines the parser refuses -/

/-- The parser returns an error somewhere in the text. -/
def Refuses (after before text ahead : List Byte) (l : Locals) : Prop :=
  ∃ outcome, feed (turn after) before text ahead 0 l = .left outcome ∧
    outcome.verdict = some .error

theorem Refuses.append {after before text ahead : List Byte} {l : Locals} (more : List Byte)
    (refuses : Refuses after before text (more ++ ahead) l) :
    Refuses after before (text ++ more) ahead l := by
  obtain ⟨outcome, left, error⟩ := refuses
  exact ⟨outcome, feed_append_of_left left, error⟩

theorem refuses_cons {after before ahead rest : List Byte} {byte : Byte} {l : Locals}
    (error : turn after before byte (rest ++ ahead) l = .leave (.returned .error l.res)) :
    Refuses after before (byte :: rest) ahead l :=
  ⟨_, feed_cons_leave error, rfl⟩

theorem isHttpControl_of_not_plain {byte : Byte} (notPlain : ¬ Plain byte) :
    isHttpControl byte = true := by
  simpa [Plain] using notPlain

theorem Visible.ne_CR {byte : Byte} (visible : Visible byte) : byte ≠ CR := by
  rintro rfl
  exact visible (by decide)

section Refused

variable (after before ahead : List Byte) {l : Locals} {header : HeaderLine}

/-- A name with a byte from `0x80` on. -/
theorem refuses_name (visible : VisibleLine header) (rest : List Byte)
    (bad : ¬ Token Plain (fun byte => Plain byte ∧ byte ≠ chr ':') header.name)
    (state : (l.state = .statusMsgEndRn ∧ ∀ byte ∈ header.name.head?, isAlnum byte = true) ∨
      l.state = .headerRn) :
    Refuses after before (header.name ++ rest) ahead l := by
  have name := visible.name
  rcases exists_of_not_token bad with empty | ⟨first, more, same, notPlain⟩ |
    ⟨front, byte, back, same, good, notGood⟩
  · exact absurd empty name.ne_nil
  · rw [same] at name
    exact absurd (plain_of_isAlnum name.1) notPlain
  · obtain ⟨first, others, sameFront⟩ := List.exists_cons_of_ne_nil good.ne_nil
    have notColon : byte ≠ chr ':' := by
      rw [same, sameFront] at name
      exact (name.2 byte (by simp)).2
    have control : isHttpControl byte = true :=
      isHttpControl_of_not_plain fun plain => notGood ⟨plain, notColon⟩
    rw [same, sameFront] at state
    rw [same, List.append_assoc, List.cons_append]
    refine (runs_headerName after before good ?_).feed_left ?_
    · rw [sameFront]
      exact state
    · rintro _ rfl
      refine refuses_cons ?_
      rw [turn]
      simp only [if_neg notColon, control, if_true]

/-- After the colon a control character, which may be the end of the line, is refused. -/
theorem refuses_afterColon {byte : Byte} (rest : List Byte) (control : isHttpControl byte = true)
    (state : l.state = afterColon header.spaced) :
    Refuses after before (byte :: rest) ahead l := by
  refine refuses_cons ?_
  have notSpace : byte ≠ SP := by
    rintro rfl
    exact absurd control (by decide)
  rw [turn]
  cases spaced : header.spaced with
  | true =>
    rw [spaced, afterColon, if_pos rfl] at state
    simp only [state, control, Bool.not_true, Bool.false_eq_true, if_false]
  | false =>
    rw [spaced, afterColon, if_neg Bool.false_ne_true] at state
    simp only [state, if_neg notSpace, control, Bool.not_true, Bool.false_eq_true, if_false]

/-- An empty value, or a value with a byte from `0x80` on. -/
theorem refuses_value (visible : VisibleLine header)
    (bad : ¬ Token (fun byte => Plain byte ∧ (header.spaced = false → byte ≠ SP)) Plain
      header.value)
    (state : l.state = afterColon header.spaced) :
    Refuses after before (header.value ++ crlf) ahead l := by
  rcases exists_of_not_token bad with empty | ⟨first, more, same, notGood⟩ |
    ⟨front, byte, back, same, good, notPlain⟩
  · rw [empty]
    exact refuses_afterColon after before ahead _ (by decide) state
  · have notSpace : header.spaced = false → first ≠ SP := by
      rintro unspaced rfl
      exact visible.canonical unspaced (by rw [same]; rfl)
    rw [same]
    exact refuses_afterColon after before ahead _
      (isHttpControl_of_not_plain fun plain => notGood ⟨plain, notSpace⟩) state
  · have seen : Visible byte := visible.value byte (by rw [same]; simp)
    have notEnd := seen.ne_CR
    rw [same, List.append_assoc, List.cons_append]
    refine (runs_headerValue after before good state).feed_left ?_
    rintro _ rfl
    refine refuses_cons ?_
    rw [turn]
    simp only [isHttpControl_of_not_plain notPlain, Bool.not_true, Bool.false_eq_true, if_false,
      if_neg notEnd]

/-- A header line that is not the parser's is refused. -/
theorem refuses_headerLine (visible : VisibleLine header) (bad : ¬ GoodLine header)
    (state : (l.state = .statusMsgEndRn ∧ ∀ byte ∈ header.name.head?, isAlnum byte = true) ∨
      l.state = .headerRn) :
    Refuses after before header.bytes ahead l := by
  by_cases name : Token Plain (fun byte => Plain byte ∧ byte ≠ chr ':') header.name
  · have value := fun value => bad ⟨name, value⟩
    refine (runs_headerName after before name state).feed_left ?_
    rintro _ rfl
    refine (runs_colonText after _ header.spaced rfl).feed_left ?_
    rintro _ rfl
    exact refuses_value after _ ahead visible value rfl
  · exact refuses_name after before ahead visible _ name state

end Refused

variable {after : List Byte} {message : Message}

theorem alnum_of_visible {lines : List HeaderLine}
    (visible : ∀ header ∈ lines, VisibleLine header) :
    ∀ header ∈ lines, ∀ byte ∈ header.name.head?, isAlnum byte = true := by
  intro header member byte first
  have name := (visible header member).name
  cases shape : header.name with
  | nil => exact absurd shape name.ne_nil
  | cons head tail =>
    rw [shape] at name first
    injection first with same
    exact same ▸ name.1

/-- Where some header line is not the parser's, the message is refused. -/
theorem verdict_of_badLine (after : List Byte) (good : message.WellFormed)
    (bad : ¬ ∀ header ∈ message.lines, GoodLine header) :
    (parse after .fresh message.bytes).verdict = some .error := by
  obtain ⟨front, header, back, same, goodFront, badHeader⟩ := exists_first_failure bad
  have member : header ∈ message.lines := by rw [same]; simp
  have visibleAlnum := alnum_of_visible good.lines
  have frontHead : (⟨message.line, [], front⟩ : ResponseHead).WellFormed :=
    ⟨good.line, fun _ member => absurd member List.not_mem_nil, goodFront,
      fun first isFirst => visibleAlnum first (by
        rw [same]
        exact List.mem_append_left _ (List.mem_of_mem_head? isFirst))⟩
  have refuses : Refuses after [] ((message.line.bytes ++ [] ++ headerBytes front) ++ header.bytes)
      (headerBytes back ++ crlf ++ message.body.bytes ++ []) (start .fresh) := by
    refine (runs_upToLines after _ frontHead).feed_left ?_
    rintro l ⟨state, _⟩
    refine refuses_headerLine after _ _ (good.lines header member) badHeader ?_
    rcases state with ⟨_, state⟩ | ⟨_, state⟩
    · exact Or.inl ⟨state, visibleAlnum header member⟩
    · exact Or.inr state
  have shape : message.bytes = ((message.line.bytes ++ [] ++ headerBytes front) ++ header.bytes) ++
      (headerBytes back ++ crlf ++ message.body.bytes) := by
    simp [Message.bytes, Message.head, ResponseHead.bytes, same, headerBytes]
  obtain ⟨outcome, left, error⟩ := refuses.append _
  rw [shape, parse_of_left left]
  exact error

/-! ### Bodies -/

theorem head_wellFormed (good : message.WellFormed)
    (goodLines : ∀ header ∈ message.lines, GoodLine header) : message.head.WellFormed :=
  ⟨good.line, fun _ member => absurd member List.not_mem_nil, goodLines,
    fun first isFirst => alnum_of_visible good.lines first (List.mem_of_mem_head? isFirst)⟩

/-- What a message does whose header lines are all the parser's. -/
theorem feed_messageHead (after : List Byte) (good : message.WellFormed)
    (goodLines : ∀ header ∈ message.lines, GoodLine header) (rest : List Byte) :
    ∃ l, feed (turn after) [] (message.head.bytes ++ rest) [] 0 (start .fresh) =
        feed (turn after) message.head.bytes rest [] 0 l ∧
      l.state = message.head.bodyState ∧
      HeadRead message.line message.lines message.head.bytes l.res := by
  obtain ⟨l, inside, state, read, _⟩ :=
    feed_head after message.head (head_wellFormed good goodLines) good.nonempty rest
  refine ⟨l, ?_, state, read⟩
  rw [feed_append_of_inside (by rw [List.append_nil]; exact inside), List.nil_append]

/-- A body of fixed length is never framed: without bytes it is not completed, and otherwise its
length is not stored. -/
theorem not_framing_fixed {content : List Byte} (good : message.WellFormed)
    (goodLines : ∀ header ∈ message.lines, GoodLine header)
    (fixed : message.body = .fixed content) : ¬ Framing after message := by
  rintro ⟨⟨res, completed, stored⟩, _⟩
  have body := good.body
  rw [fixed] at body stored
  obtain ⟨l, joined, state, read⟩ := feed_messageHead after good goodLines content
  have bytes : message.bytes = message.head.bytes ++ content := by
    rw [Message.bytes, fixed, MessageBody.bytes]
  have inData : l.state = .dataStart := by
    rw [state, ResponseHead.bodyState, if_neg]
    rw [Message.head, body.2]
    exact Bool.false_ne_true
  cases content with
  | nil =>
    rw [bytes, parse_of_inside (joined.trans rfl)] at completed
    cases completed
  | cons first rest =>
    obtain ⟨content, taken⟩ : ∃ content, turn after message.head.bytes first (rest ++ []) l =
        .leave (.returned .completed { l.res with content }) [content] := by
      rw [turn]
      simp only [inData]
      exact ⟨_, rfl⟩
    rw [bytes, parse_of_left (joined.trans (feed_cons_leave taken))] at completed
    injection completed with _ same
    have length := stored.2
    rw [← same] at length
    rw [read.contentLength, List.length_cons] at length
    omega

theorem lastChunk_eq : lastChunk = (ascii "0" ++ [CR]) ++ [LF] := rfl

theorem token_zero : Token (isHexChar · = true) (isHexChar · = true) (ascii "0") := by decide

/-- A chunked body without chunks is framed. -/
theorem framing_noChunks (good : message.WellFormed)
    (goodLines : ∀ header ∈ message.lines, GoodLine header)
    (empty : message.body = .chunked []) : Framing after message := by
  have goodHead := head_wellFormed good goodLines
  have body := good.body
  rw [empty] at body
  have inChunks : message.head.bodyState = .newChunkStart := if_pos body.1
  have bytes : message.bytes = (message.head.bytes ++ (ascii "0" ++ [CR])) ++ [LF] := by
    rw [Message.bytes, empty, MessageBody.bytes, lastChunk_eq]
    simp [chunkBytes]
  have through : Runs (turn after) [] (message.head.bytes ++ (ascii "0" ++ [CR])) (start .fresh)
      fun before l => l.state = .zeroChunkSizeR ∧ l.res.chunks = [] := by
    refine Runs.append (runs_head after message.head goodHead good.nonempty) ?_
    rintro l ⟨state, read⟩
    refine (runs_size after _ (state.trans inChunks) token_zero (by decide)).mono ?_
    rintro _ rfl
    have zero : hexValue (ascii "0") = 0 := by decide
    refine ⟨?_, read.chunks⟩
    simp only [zero, ne_eq, not_true_eq_false, if_false]
  constructor
  · obtain ⟨l, inside, state, chunks⟩ := through.feed [LF]
    have ended : turn after (message.head.bytes ++ (ascii "0" ++ [CR])) LF [] l =
        .leave (.returned .completed l.res) := by
      rw [turn]
      simp only [state, if_true]
    refine ⟨l.res, ?_, ?_⟩
    · rw [bytes]
      refine parse_of_left ?_
      rw [feed_append_of_inside (by rw [List.append_nil]; exact inside)]
      exact feed_cons_leave ended
    · rw [empty, MessageBody.Stored, chunks]
      exact .nil
  · intro read cut proper
    have short := prefix_dropLast cut proper
    rw [bytes, List.dropLast_concat] at short
    obtain ⟨l, inside⟩ := through.feed_of_isPrefix short []
    rw [parse_of_inside inside]
    rfl

/-- A chunked body with chunks is never framed: when only the first byte of the first chunk has
arrived the message is refused, or an exception was thrown before. -/
theorem not_framing_chunks {first : ChunkText} {others : List ChunkText}
    (good : message.WellFormed) (goodLines : ∀ header ∈ message.lines, GoodLine header)
    (chunked : message.body = .chunked (first :: others)) : ¬ Framing after message := by
  rintro ⟨_, incomplete⟩
  have body := good.body
  rw [chunked] at body
  have goodChunk := body.2 first List.mem_cons_self
  have inChunks : message.head.bodyState = .newChunkStart := if_pos body.1
  obtain ⟨byte, data, sameData⟩ := List.exists_cons_of_ne_nil goodChunk.nonempty
  have bytes : message.bytes = message.head.bytes ++ (first.digits ++ crlf ++ [byte]) ++
      (data ++ crlf ++ chunkBytes others ++ lastChunk) := by
    rw [Message.bytes, chunked, MessageBody.bytes, chunkBytes_cons, ChunkText.bytes, sameData]
    simp
  -- every prefix that ends in the first byte of the data or before it is incomplete
  have early (read : List Byte) (cut : read <+: first.digits ++ crlf ++ [byte]) :
      (parse after .fresh (message.head.bytes ++ read)).verdict = some .inCompleted := by
    refine incomplete _ ?_ fun same => ?_
    · rw [bytes, List.append_assoc]
      exact (List.prefix_append_right_inj _).mpr (cut.trans (List.prefix_append _ _))
    · have longer := cut.length_le
      have sizes := congrArg List.length same
      rw [bytes] at sizes
      simp only [List.length_append, List.length_cons, List.length_nil] at sizes longer
      omega
  by_cases small : hexValue first.digits < 2 ^ 31
  · have whole := early _ (List.prefix_refl _)
    obtain ⟨l, joined, state, _⟩ :=
      feed_messageHead after good goodLines (first.digits ++ crlf ++ [byte])
    have positive : hexValue first.digits ≠ 0 := by
      rw [goodChunk.size, sameData]
      exact Nat.succ_ne_zero _
    obtain ⟨_, sized, rfl⟩ := (runs_sizeLine after message.head.bytes (state.trans inChunks)
      goodChunk.digits small positive).feed [byte]
    have refused : turn after (message.head.bytes ++ (first.digits ++ crlf)) byte [] { l with
        state := .chunkDataSizeRn
        prevIt := message.head.bytes.length
        newChunkSize := hexValue first.digits } = .leave (.returned .error l.res) := by
      rw [turn]
      simp only [takeChunk]
      rw [if_neg]
      rw [List.length_nil]
      omega
    rw [parse_of_left (joined.trans ((feed_append_of_inside sized).trans
      (feed_cons_leave refused)))] at whole
    cases whole
  · have atEnd := early (first.digits ++ [CR]) (by simp)
    obtain ⟨l, joined, state, _⟩ := feed_messageHead after good goodLines (first.digits ++ [CR])
    rw [parse_of_left (joined.trans (feed_hugeSize after _ (state.trans inChunks)
      goodChunk.digits (not_lt.mp small)))] at atEnd
    cases atEnd

/-- Framing: exactly the chunked messages without chunks are framed, if their header lines are the
parser's. -/
theorem framing_iff_noChunks (after : List Byte) (message : Message) (good : message.WellFormed) :
    Framing after message ↔
      message.body = .chunked [] ∧ ∀ header ∈ message.lines, GoodLine header := by
  constructor
  · intro framing
    have goodLines : ∀ header ∈ message.lines, GoodLine header := by
      by_contra bad
      obtain ⟨⟨res, completed, _⟩, _⟩ := framing
      have error := verdict_of_badLine after good bad
      rw [completed] at error
      cases error
    refine ⟨?_, goodLines⟩
    cases body : message.body with
    | fixed content => exact absurd framing (not_framing_fixed good goodLines body)
    | chunked chunks =>
      cases chunks with
      | nil => rfl
      | cons first others => exact absurd framing (not_framing_chunks good goodLines body)
  · rintro ⟨empty, goodLines⟩
    exact framing_noChunks good goodLines empty

/-- A response whose body is one chunk of one byte. -/
def oneChunk : Message where
  line := { version := ascii "1.1", code := ascii "200", reason := ascii "OK" }
  lines := [{ name := ascii "Transfer-Encoding", spaced := true, value := ascii "chunked" }]
  body := .chunked [{ digits := ascii "1", data := ascii "a" }]

theorem wellFormed_oneChunk : oneChunk.WellFormed where
  line := ⟨by decide, by decide, by decide, by decide⟩
  lines := by
    intro header member
    rw [List.mem_singleton.mp member]
    exact ⟨by decide, Token.forall_mem (by decide), by decide⟩
  nonempty := by decide
  body := by
    refine ⟨by decide, fun chunk member => ?_⟩
    rw [List.mem_singleton.mp member]
    exact ⟨by decide, by decide, by decide⟩

theorem framing_iff_noChunks_oneChunk : oneChunk.WellFormed ∧ (Framing [] oneChunk ↔
    oneChunk.body = .chunked [] ∧ ∀ header ∈ oneChunk.lines, GoodLine header) :=
  ⟨wellFormed_oneChunk, framing_iff_noChunks [] oneChunk wellFormed_oneChunk⟩

/-- When the chunk has arrived, but not the line end after it, the response is refused. -/
theorem not_framing_oneChunk : oneChunk.WellFormed ∧ ¬ Framing [] oneChunk := by
  refine ⟨wellFormed_oneChunk, fun framing => ?_⟩
  have arrived := framing.2 (oneChunk.head.bytes ++ ascii "1\r\na") (by decide) (by decide)
  exact absurd arrived (by decide)

end ResponseParser

end Sheep
