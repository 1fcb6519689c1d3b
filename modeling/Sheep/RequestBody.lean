/-
This file proves that a body of fixed length is read back: from a request head
that announces its length in decimal, the body, and whatever follows, the parser
stores the header lines, the length, and exactly the bytes of the body.
-/

import Sheep.RequestAcceptance
import Sheep.RequestStreaming

namespace Sheep

open ScanLoop

/-! ### Decimal numbers -/

/-- The canonical decimal text of a number. -/
def decimalText (number : Nat) : List Byte := (Nat.toDigits 10 number).map chr

theorem toNat_chr {character : Char} (digit : character.isDigit) :
    (chr character).toNat = character.toNat := by
  obtain ⟨_, high⟩ := Char.isDigit_iff_toNat.mp digit
  have nine : '9'.toNat = 57 := rfl
  exact UInt8.toNat_ofNat_of_lt' (by show _ < 256; omega)

theorem isDigit_decimalText {number : Nat} {byte : Byte} (member : byte ∈ decimalText number) :
    isDigit byte = true := by
  obtain ⟨character, digits, rfl⟩ := List.mem_map.mp member
  have digit := Nat.isDigit_of_mem_toDigits (by decide) (by decide) digits
  rw [isDigit_iff, toNat_chr digit]
  exact Char.isDigit_iff_toNat.mp digit

theorem decimalText_ne_nil (number : Nat) : decimalText number ≠ [] := fun none =>
  Nat.toDigits_ne_nil (List.map_eq_nil_iff.mp none)

theorem foldl_chr {characters : List Char}
    (digits : ∀ character ∈ characters, character.isDigit = true) (start : Nat) :
    (characters.map chr).foldl (fun value byte => value * 10 + (byte.toNat - 48)) start =
      Nat.ofDigitChars 10 characters start := by
  induction characters generalizing start with
  | nil => rfl
  | cons first rest inductionHypothesis =>
    obtain ⟨digit, others⟩ := List.forall_mem_cons.mp digits
    rw [List.map_cons, List.foldl_cons, toNat_chr digit, inductionHypothesis others,
      Nat.ofDigitChars_cons, Nat.mul_comm start]
    rfl

/-- Reading a canonical decimal text gives the number back. -/
theorem decimalValue_decimalText (number : Nat) : decimalValue (decimalText number) = number := by
  rw [decimalValue, decimalText,
    foldl_chr fun _ => Nat.isDigit_of_mem_toDigits (by decide) (by decide),
    Nat.ofDigitChars_ten_toDigits]

namespace RequestParser

/-! ### The countdown -/

variable {after before rest : List Byte} {l : Locals}

/-- The countdown ends with the last byte of the body. It counts the bytes that are left, and the
body started at `prevIt`. -/
theorem feed_countdown {left : List Byte} (state : l.state = .postDataStart)
    (nonempty : left ≠ []) (remaining : l.remainingContentSize.toNat = left.length) :
    feed (turn after) before left rest 0 l = .left (.returned .completed
      { l.req with content := .range l.prevIt (before ++ left).length }) := by
  induction left generalizing before l with
  | nil => exact absurd rfl nonempty
  | cons byte more inductionHypothesis =>
    rw [List.length_cons] at remaining
    cases more with
    | nil =>
      have last : l.remainingContentSize = 1 := UInt64.toNat_inj.mp remaining
      have zero : l.remainingContentSize - 1 = 0 := by rw [last]; rfl
      have turned : turn after before byte ([] ++ rest) l = .leave (.returned .completed
          { l.req with content := .range l.prevIt (before ++ [byte]).length })
          [.range l.prevIt (before ++ [byte]).length] := by
        rw [turn]
        simp only [state, if_pos zero, List.length_append, List.length_singleton, Nat.cast_add,
          Nat.cast_one]
      exact feed_cons_leave turned
    | cons next others =>
      obtain ⟨less, notZero⟩ := toNat_sub_one
        (by rw [remaining, List.length_cons]; omega : 1 < l.remainingContentSize.toNat)
      have turned : turn after before byte (next :: others ++ rest) l =
          .go { l with remainingContentSize := l.remainingContentSize - 1 } := by
        rw [turn]
        simp only [state, if_neg notZero]
      have shift : before ++ byte :: next :: others = before ++ [byte] ++ next :: others := by simp
      rw [feed_cons_go turned, shift]
      refine inductionHypothesis state (List.cons_ne_nil _ _) ?_
      rw [less, remaining]
      rfl

/-- The body after a head, which counts its first byte in a state of its own. -/
theorem feed_fixedBody {body method : List Byte} (state : l.state = .headerRnrn)
    (stored : l.req.method.text before = some method) (hasBody : HasBody method)
    (single : l.req.isMultipart = false) (nonempty : body ≠ [])
    (remaining : l.remainingContentSize.toNat = body.length) :
    feed (turn after) before body rest 0 l = .left (.returned .completed
      { l.req with content := .range before.length (before ++ body).length }) := by
  have method := (same_method_iff stored).mpr hasBody
  obtain ⟨byte, more, rfl⟩ := List.exists_cons_of_ne_nil nonempty
  rw [List.length_cons] at remaining
  cases more with
  | nil =>
    have last : l.remainingContentSize = 1 := UInt64.toNat_inj.mp remaining
    have zero : l.remainingContentSize - 1 = 0 := by rw [last]; rfl
    have turned : turn after before byte ([] ++ rest) l = .leave (.returned .completed
        { l.req with content := .range before.length (before ++ [byte]).length })
        [l.req.method, .range before.length (before ++ [byte]).length] := by
      rw [turn]
      simp only [state, method, if_true, single, Bool.not_false, if_pos zero, List.length_append,
        List.length_singleton, Nat.cast_add, Nat.cast_one]
    exact feed_cons_leave turned
  | cons next others =>
    obtain ⟨less, notZero⟩ := toNat_sub_one
      (by rw [remaining, List.length_cons]; omega : 1 < l.remainingContentSize.toNat)
    have turned : turn after before byte (next :: others ++ rest) l = .go { l with
        state := .postDataStart
        prevIt := before.length
        remainingContentSize := l.remainingContentSize - 1 } [l.req.method] := by
      rw [turn]
      simp only [state, method, if_true, single, Bool.not_false, if_neg notZero]
    have shift : before ++ byte :: next :: others = before ++ [byte] ++ next :: others := by simp
    rw [feed_cons_go turned, shift]
    refine feed_countdown rfl (List.cons_ne_nil _ _) ?_
    rw [less, remaining]
    rfl

/-! ### Requests with a body of fixed length -/

/-- What is stored of a request with a body of fixed length. -/
structure FixedRead (head : RequestHead) (body buffer : List Byte) (req : Request) : Prop where
  stored : Decomposes head buffer req
  single : req.isMultipart = false
  parts : req.parts = []
  contentSize : req.contentSize.toNat = body.length
  content : req.content = .range head.bytes.length (head.bytes ++ body).length
  denotes : req.content.text buffer = some body

/-- The head announces a body of this length, in canonical decimal and not as multipart. -/
structure AnnouncesLength (head : RequestHead) (length : Nat) : Prop where
  hasBody : HasBody head.line.method
  single : boundaryOf head.lines = none
  length : lengthOf head.lines = some (decimalText length)

/-- The body round trip: whatever follows the body, the parser stores the head, the length and
the body. -/
theorem parse_fixed (after : List Byte) (size : UInt64) (head : RequestHead)
    (body rest : List Byte) (good : head.WellFormed) (announces : AnnouncesLength head body.length)
    (nonempty : 1 ≤ body.length) (small : body.length ≤ 2 ^ 31 - 1) :
    ∃ req, parse after (.fresh size) (head.bytes ++ body ++ rest) = .returned .completed req ∧
      FixedRead head body (head.bytes ++ body ++ rest) req := by
  have bodyNonempty : body ≠ [] := List.length_pos_iff.mp nonempty
  have linesNonempty : head.lines ≠ [] := by
    intro empty
    have length := announces.length
    rw [empty] at length
    cases length
  obtain ⟨l, inside, state, read⟩ := feed_head after head good linesNonempty size
    (List.append_ne_nil_of_left_ne_nil bodyNonempty rest)
  obtain ⟨remaining, contentSize⟩ := read.length _ announces.length (decimalText_ne_nil _)
    fun _ => isDigit_decimalText
  have counted : (readSize (decimalText body.length)).toNat = body.length := by
    rw [toNat_readSize (by rw [decimalValue_decimalText]; omega), decimalValue_decimalText]
  have single : l.req.isMultipart = false := by rw [read.multipart, announces.single]; rfl
  have ended : feed (turn after) head.bytes body (rest ++ []) 0 l = _ :=
    feed_fixedBody state read.line.method announces.hasBody single bodyNonempty
      (by rw [remaining, counted])
  have whole := (read.append (body ++ rest)).decomposes
  rw [← List.append_assoc] at whole
  refine ⟨{ l.req with content := .range head.bytes.length (head.bytes ++ body).length },
    parse_of_left ?_, ⟨⟨whole.line.method, whole.line.uri, whole.line.version⟩, whole.headers⟩,
    single, read.parts, by rw [contentSize, counted], rfl, ?_⟩
  · rw [List.append_assoc, feed_append_of_inside (by rw [List.append_nil]; exact inside),
      List.nil_append]
    exact feed_append_of_left ended
  · exact StringView.text_range head.bytes body rest rfl rfl rfl

/-- A post with three header lines, the last of which announces twelve bytes. -/
def greeting : RequestHead where
  line := ⟨ascii "POST", ascii "/greet", ascii "1.1"⟩
  lines := [⟨ascii "Host", true, ascii "h"⟩, ⟨ascii "Content-Type", false, ascii "text/plain"⟩,
    ⟨ascii "Content-Length", true, ascii "12"⟩]

/-- Its body is read back, with the beginning of the next request behind it. -/
theorem parse_fixed_greeting :
    ∃ req, parse [] (.fresh 0) (greeting.bytes ++ ascii "hello, sheep" ++ ascii "GET") =
        .returned .completed req ∧
      FixedRead greeting (ascii "hello, sheep")
        (greeting.bytes ++ ascii "hello, sheep" ++ ascii "GET") req := by
  have good : greeting.WellFormed := by
    refine ⟨⟨by decide, by decide, by decide⟩, fun header member => ?_⟩
    simp only [greeting, List.mem_cons, List.not_mem_nil, or_false] at member
    rcases member with rfl | rfl | rfl <;> exact ⟨by decide, by decide⟩
  exact parse_fixed [] 0 greeting (ascii "hello, sheep") (ascii "GET") good
    ⟨by decide, by decide, by decide⟩ (by decide) (by decide)

end RequestParser

end Sheep
