/-
This file decides when a request can arrive in pieces: a message is streamed
safely if every proper prefix of it is reported as incomplete. Requests without
a body are. A request with a body is not: its head alone is taken for a complete
request. For messages whose length or boundary the parser reads correctly the
head is the only prefix that goes wrong.
-/

import Sheep.RequestRoundTrip

namespace Sheep

open ScanLoop

namespace RequestParser

/-! ### Messages -/

/-- A request: a head alone, a head that announces a length and a body of that length, or a head
that announces a boundary and a multipart body. -/
inductive Message
  | bodiless (head : RequestHead)
  | fixed (head : RequestHead) (digits body : List Byte)
  | multipart (message : FormMessage)

namespace Message

def head : Message → RequestHead
  | .bodiless head => head
  | .fixed head _ _ => head
  | .multipart message => message.head

def body : Message → List Byte
  | .bodiless _ => []
  | .fixed _ _ body => body
  | .multipart message => message.body

def bytes (message : Message) : List Byte := message.head.bytes ++ message.body

def method (message : Message) : List Byte := message.head.line.method

/-- Only `POST` and `PUT` have bodies. A body of fixed length is not empty and its length is
announced in decimal. -/
def WellFormed : Message → Prop
  | .bodiless head => head.WellFormed ∧ ¬ HasBody head.line.method
  | .fixed head digits body =>
      head.WellFormed ∧ HasBody head.line.method ∧ boundaryOf head.lines = none ∧
      lengthOf head.lines = some digits ∧ (∀ byte ∈ digits, isDigit byte = true) ∧
      digits ≠ [] ∧ decimalValue digits = body.length ∧ body ≠ []
  | .multipart message => message.WellFormed

/-- The parser reads the length or the delimiters as they are meant. -/
def Readable : Message → Prop
  | .bodiless _ => True
  | .fixed _ _ body => body.length < 2 ^ 31
  | .multipart message => message.Recognisable

end Message

/-- Every proper prefix of the message is reported as incomplete. -/
def Streams (after : List Byte) (size : UInt64) (message : Message) : Prop :=
  ∀ read, read <+: message.bytes → read ≠ message.bytes →
    (parse after (.fresh size) read).verdict = some .inCompleted

variable {after : List Byte}

/-! ### Prefixes -/

/-- What lies on the way of a run that stays inside is incomplete. -/
theorem verdict_of_feed {req : Request} {text : List Byte} {l : Locals}
    (inside : feed (turn after) [] text [] 0 (start req) = .inside 0 l) :
    (parse after req text).verdict = some .inCompleted := by
  rw [parse_of_inside inside]
  rfl

/-! ### The head -/

theorem head_dropLast (head : RequestHead) :
    head.bytes.dropLast = head.line.bytes ++ (headerBytes head.lines ++ [CR]) := by
  have shape : head.bytes = (head.line.bytes ++ (headerBytes head.lines ++ [CR])) ++ [LF] := by
    simp [RequestHead.bytes]
  rw [shape, List.dropLast_concat]

/-- Inside its head a request is incomplete. -/
theorem verdict_insideHead (head : RequestHead) (good : head.WellFormed) (size : UInt64)
    {read : List Byte} (cut : read <+: head.bytes) (proper : read ≠ head.bytes) :
    (parse after (.fresh size) read).verdict = some .inCompleted := by
  have inside := prefix_dropLast cut proper
  rw [head_dropLast] at inside
  obtain ⟨l, stays⟩ := (runs_head after head good size).feed_of_isPrefix inside []
  exact verdict_of_feed stays

/-- A head alone is complete, whatever its method. -/
theorem verdict_head (head : RequestHead) (good : head.WellFormed) (size : UInt64) :
    (parse after (.fresh size) head.bytes).verdict = some .completed := by
  obtain ⟨_, l, parsed, _⟩ := parse_head after head good size
  rw [parsed]
  rfl

/-! ### Bodies of fixed length -/

theorem toNat_readSize {digits : List Byte} (small : decimalValue digits < 2 ^ 31) :
    (readSize digits).toNat = decimalValue digits := by
  have low : (decimalValue digits : Int) % 2 ^ 64 = decimalValue digits :=
    Int.emod_eq_of_lt (by omega) (by omega)
  rw [readSize, min_eq_right (by omega), Int.bmod_eq_of_le (by omega) (by omega), UInt64.ofInt, low,
    Int.toNat_natCast, UInt64.toNat_ofNat_of_lt' (by show _ < 2 ^ 64; omega)]

/-- Counting down a remaining size that is not used up. -/
theorem toNat_sub_one {remaining : UInt64} (more : 1 < remaining.toNat) :
    (remaining - 1).toNat = remaining.toNat - 1 ∧ remaining - 1 ≠ 0 := by
  have one : (remaining - 1).toNat = remaining.toNat - 1 :=
    UInt64.toNat_sub_of_le _ _ (UInt64.le_iff_toNat_le.mpr more.le)
  refine ⟨one, fun zero => ?_⟩
  rw [zero] at one
  have none : (0 : UInt64).toNat = 0 := rfl
  omega

theorem runs_postData {before read : List Byte} {l : Locals} (state : l.state = .postDataStart)
    (short : read.length < l.remainingContentSize.toNat) :
    Runs (turn after) before read l fun _ _ => True := by
  induction read generalizing before l with
  | nil => exact runs_nil trivial
  | cons byte rest inductionHypothesis =>
    rw [List.length_cons] at short
    obtain ⟨less, notZero⟩ := toNat_sub_one (by omega : 1 < l.remainingContentSize.toNat)
    refine runs_cons fun ahead => ?_
    rw [turn]
    simp only [state, if_neg notZero, onward_go]
    refine inductionHypothesis rfl ?_
    rw [less]
    omega

/-- A fixed body that is not all there goes on. -/
theorem runs_fixedBody (after : List Byte) {before read method : List Byte} {l : Locals}
    (state : l.state = .headerRnrn)
    (stored : l.req.method.text before = some method) (hasBody : HasBody method)
    (single : l.req.isMultipart = false) (short : read.length < l.remainingContentSize.toNat) :
    Runs (turn after) before read l fun _ _ => True := by
  cases read with
  | nil => exact runs_nil trivial
  | cons byte rest =>
    rw [List.length_cons] at short
    obtain ⟨less, notZero⟩ := toNat_sub_one (by omega : 1 < l.remainingContentSize.toNat)
    refine runs_cons fun ahead => ?_
    rw [turn]
    simp only [state, (same_method_iff stored).mpr hasBody, if_true, single, Bool.not_false,
      if_neg notZero, onward_go]
    refine runs_postData rfl ?_
    rw [less]
    omega

/-! ### Streaming -/

theorem head_wellFormed {message : Message} (good : message.WellFormed) :
    message.head.WellFormed := by
  cases message with
  | bodiless head => exact good.1
  | fixed head digits body => exact good.1
  | multipart message => exact good.head

/-- A message has a body exactly if its method says so. -/
theorem body_ne_nil_iff {message : Message} (good : message.WellFormed) :
    message.body ≠ [] ↔ HasBody message.method := by
  cases message with
  | bodiless head =>
    exact ⟨fun nonempty => absurd rfl nonempty, fun hasBody => absurd hasBody good.2⟩
  | fixed head digits body => exact ⟨fun _ => good.2.1, fun _ => good.2.2.2.2.2.2.2⟩
  | multipart message => exact ⟨fun _ => good.method, fun _ => message.body_ne_nil⟩

/-- Inside the body of a readable message the request is incomplete. -/
theorem verdict_insideBody {message : Message} (good : message.WellFormed)
    (readable : message.Readable) (size : UInt64) {more : List Byte} (nonempty : more ≠ [])
    (cut : more <+: message.body) (proper : more ≠ message.body) :
    (parse after (.fresh size) (message.head.bytes ++ more)).verdict = some .inCompleted := by
  suffices reached : ∃ l l', feed (turn after) [] message.head.bytes more 0 (start (.fresh size)) =
      .inside 0 l ∧ feed (turn after) message.head.bytes more [] 0 l = .inside 0 l' by
    obtain ⟨l, l', head, body⟩ := reached
    refine verdict_of_feed (l := l') ?_
    rw [feed_append_of_inside (by rw [List.append_nil]; exact head)]
    exact body
  cases message with
  | bodiless head => exact absurd (List.eq_nil_of_prefix_nil cut) nonempty
  | fixed head digits body =>
    obtain ⟨goodHead, hasBody, noBoundary, announced, allDigits, digitsNonempty, value, _⟩ := good
    have linesNonempty : head.lines ≠ [] := by
      intro empty
      rw [empty] at announced
      cases announced
    obtain ⟨l, inside, state, read⟩ :=
      feed_head after head goodHead linesNonempty size nonempty
    have remaining := (read.length digits announced digitsNonempty allDigits).1
    have short : more.length < l.remainingContentSize.toNat := by
      have less : more.length < body.length :=
        lt_of_le_of_ne cut.length_le fun same => proper (cut.eq_of_length same)
      have small : body.length < 2 ^ 31 := readable
      rw [remaining, toNat_readSize (by omega)]
      omega
    have single : l.req.isMultipart = false := by rw [read.multipart, noBoundary]; rfl
    obtain ⟨l', stays⟩ := (runs_fixedBody after state read.line.method hasBody single
      short).feed_of_isPrefix (List.prefix_refl more) []
    exact ⟨l, l', inside, stays⟩
  | multipart message =>
    obtain ⟨l, inside, begun⟩ := feed_messageHead after good size nonempty
    obtain ⟨l', stays⟩ := (runs_messageBody after good begun readable.announced
      readable.quiet).feed_of_isPrefix (prefix_dropLast cut proper) []
    exact ⟨l, l', inside, stays⟩

/-- Streaming: a message streams safely exactly if its method has no body. In a readable message
the only proper prefix that is not reported as incomplete is the head before a body. -/
theorem streams_iff_not_hasBody (after : List Byte) (size : UInt64) (message : Message)
    (good : message.WellFormed) :
    (Streams after size message ↔ ¬ HasBody message.method) ∧
    (message.Readable → ∀ read, read <+: message.bytes → read ≠ message.bytes →
      ((parse after (.fresh size) read).verdict = some .inCompleted ↔
        read ≠ message.head.bytes)) := by
  have goodHead := head_wellFormed good
  have atHead : (parse after (.fresh size) message.head.bytes).verdict ≠ some .inCompleted := by
    rw [verdict_head message.head goodHead size]
    decide
  have finer (readable : message.Readable) (read : List Byte) (cut : read <+: message.bytes)
      (proper : read ≠ message.bytes) :
      (parse after (.fresh size) read).verdict = some .inCompleted ↔
        read ≠ message.head.bytes := by
    constructor
    · rintro incomplete rfl
      exact atHead incomplete
    · intro notHead
      rcases prefix_cases cut with ⟨inHead, before⟩ | same | ⟨more, nonempty, rfl, inBody⟩
      · exact verdict_insideHead message.head goodHead size inHead before
      · exact absurd same notHead
      · exact verdict_insideBody good readable size nonempty inBody fun same =>
          proper (by rw [Message.bytes, same])
  refine ⟨⟨fun streams hasBody => ?_, fun bodiless read cut proper => ?_⟩, finer⟩
  · have nonempty := (body_ne_nil_iff good).mpr hasBody
    refine atHead (streams _ ⟨message.body, rfl⟩ fun same => nonempty ?_)
    exact List.append_cancel_left ((List.append_nil message.head.bytes).trans same).symm
  · cases message with
    | bodiless head =>
      refine (finer trivial read cut proper).mpr fun same => proper ?_
      rw [same, Message.bytes, Message.body, List.append_nil]
    | fixed head digits body => exact absurd good.2.1 bodiless
    | multipart message => exact absurd good.method bodiless

/-- The shortest post. -/
def shortPost : Message :=
  .fixed
    { line := { method := ascii "POST", uri := ascii "/", version := ascii "1" }
      lines := [{ name := ascii "Content-Length", spaced := true, value := ascii "1" }] }
    (ascii "1") (ascii "x")

theorem wellFormed_shortPost : shortPost.WellFormed := by
  refine ⟨⟨⟨by decide, by decide, by decide⟩, fun header member => ?_⟩, by decide, by decide,
    by decide, Token.forall_mem (by decide), by decide, by decide, by decide⟩
  rw [List.mem_singleton.mp member]
  exact ⟨by decide, by decide⟩

theorem streams_iff_not_hasBody_shortPost :
    shortPost.WellFormed ∧ (Streams [] 0 shortPost ↔ ¬ HasBody shortPost.method) :=
  ⟨wellFormed_shortPost, (streams_iff_not_hasBody [] 0 shortPost wellFormed_shortPost).1⟩

/-- The head of the shortest post is reported as complete before its body has arrived. -/
theorem not_streams_shortPost : shortPost.WellFormed ∧ ¬ Streams [] 0 shortPost := by
  refine ⟨wellFormed_shortPost, fun streams => ?_⟩
  have atHead := streams shortPost.head.bytes (by decide) (by decide)
  exact absurd atHead (by decide)

end RequestParser

end Sheep
