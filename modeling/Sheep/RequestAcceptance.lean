/-
This file proves that the parser accepts its grammar and nothing else. A buffer
that does not start like a request with a body is completed just if it starts
with a head, which then is the only one it starts with and is stored as it
stands. For all buffers an error is final: the parser looks beyond the current
byte only to tell a head that ends the buffer from one that does not, and to
convert a length, and neither can turn an error into anything else.
-/

import Sheep.RequestTrail

namespace Sheep

open ScanLoop

namespace RequestParser

/-! ### Heads can be told from what follows -/

theorem headerLine_inj {header header' : HeaderLine} {more more' : List Byte}
    (good : GoodLine header) (good' : GoodLine header')
    (same : header.bytes ++ more = header'.bytes ++ more') : header = header' ∧ more = more' := by
  obtain ⟨name, spaced, value⟩ := header
  obtain ⟨name', spaced', value'⟩ := header'
  simp only [HeaderLine.bytes, colonText, crlf, List.append_assoc, List.cons_append,
    List.nil_append] at same
  obtain ⟨rfl, _, same⟩ := good.name.append_cons_inj (by simp) good'.name (by simp) same
  have values (sameValue : value ++ CR :: LF :: more = value' ++ CR :: LF :: more') :
      value = value' ∧ more = more' := by
    obtain ⟨rfl, _, rest⟩ :=
      good.value.append_cons_inj (by decide) good'.value (by decide) sameValue
    exact ⟨rfl, (List.cons.inj rest).2⟩
  -- a space after the colon belongs to the value only if the optional one is there too
  have unspaced {text rest rest' : List Byte} {spaced : Bool} (isFalse : spaced = false)
      (token : Token (fun byte => Plain byte ∧ (spaced = false → byte ≠ SP)) Plain text)
      (starts : SP :: rest = text ++ rest') : False := by
    cases text with
    | nil => exact token
    | cons byte others => exact token.1.2 isFalse (List.cons.inj starts).1.symm
  cases spaced <;> cases spaced' <;> simp only [Bool.false_eq_true, if_false, if_true,
    List.nil_append, List.cons_append, List.cons.injEq, true_and] at same
  · obtain ⟨rfl, rfl⟩ := values same
    exact ⟨rfl, rfl⟩
  · exact absurd same.symm (unspaced rfl good.value)
  · exact absurd same (unspaced rfl good'.value)
  · obtain ⟨rfl, rfl⟩ := values same
    exact ⟨rfl, rfl⟩

theorem headerLines_inj {lines lines' : List HeaderLine} {more more' : List Byte}
    (good : ∀ header ∈ lines, GoodLine header) (good' : ∀ header ∈ lines', GoodLine header)
    (same : headerBytes lines ++ (crlf ++ more) = headerBytes lines' ++ (crlf ++ more')) :
    lines = lines' ∧ more = more' := by
  have notEmpty {header : HeaderLine} {rest rest' : List Byte} (goodHeader : GoodLine header)
      (starts : CR :: rest = header.bytes ++ rest') : False := by
    obtain ⟨name, spaced, value⟩ := header
    cases name with
    | nil => exact goodHeader.name
    | cons byte others => exact Plain.ne_CR goodHeader.name.1 (List.cons.inj starts).1.symm
  induction lines generalizing lines' with
  | nil =>
    cases lines' with
    | nil => exact ⟨rfl, List.append_cancel_left same⟩
    | cons header' rest' =>
      rw [headerBytes_cons, List.append_assoc] at same
      exact absurd same (notEmpty (good' header' List.mem_cons_self))
  | cons header rest inductionHypothesis =>
    cases lines' with
    | nil =>
      rw [headerBytes_cons, List.append_assoc] at same
      exact absurd same.symm (notEmpty (good header List.mem_cons_self))
    | cons header' rest' =>
      rw [headerBytes_cons, headerBytes_cons, List.append_assoc, List.append_assoc] at same
      obtain ⟨rfl, sameRest⟩ := headerLine_inj (good header List.mem_cons_self)
        (good' header' List.mem_cons_self) same
      obtain ⟨rfl, rest⟩ := inductionHypothesis (List.forall_mem_cons.mp good).2
        (List.forall_mem_cons.mp good').2 sameRest
      exact ⟨rfl, rest⟩

/-- A buffer starts with at most one request line. -/
theorem requestLine_inj {line line' : RequestLine} {more more' : List Byte}
    (good : line.WellFormed) (good' : line'.WellFormed)
    (same : line.bytes ++ more = line'.bytes ++ more') : line = line' ∧ more = more' := by
  obtain ⟨method, uri, version⟩ := line
  obtain ⟨method', uri', version'⟩ := line'
  simp only [RequestLine.bytes, List.append_assoc, List.cons_append] at same
  obtain ⟨rfl, _, same⟩ := good.method.append_cons_inj (by decide) good'.method (by decide) same
  obtain ⟨rfl, _, same⟩ := good.uri.append_cons_inj (by simp) good'.uri (by simp) same
  have same := List.append_cancel_left same
  obtain ⟨rfl, _, same⟩ := good.version.append_cons_inj (by decide) good'.version (by decide) same
  exact ⟨rfl, (List.cons.inj same).2⟩

/-- A buffer starts with at most one head. -/
theorem head_inj {head head' : RequestHead} {more more' : List Byte} (good : head.WellFormed)
    (good' : head'.WellFormed) (same : head.bytes ++ more = head'.bytes ++ more') :
    head = head' ∧ more = more' := by
  obtain ⟨line, lines⟩ := head
  obtain ⟨line', lines'⟩ := head'
  simp only [RequestHead.bytes, List.append_assoc] at same
  obtain ⟨sameLine, sameRest⟩ := requestLine_inj good.line good'.line same
  obtain ⟨sameLines, rest⟩ := headerLines_inj good.lines good'.lines sameRest
  simp only at sameLine sameLines
  subst sameLine sameLines
  exact ⟨rfl, rest⟩

/-! ### Acceptance -/

/-- The heads of requests without a body. -/
structure InGrammar (head : RequestHead) : Prop where
  good : head.WellFormed
  bodiless : ¬ HasBody head.line.method

/-- The request stores the parts of the head, in order. -/
structure Decomposes (head : RequestHead) (buf : List Byte) (req : Request) : Prop where
  line : LineRead head.line buf req
  headers : List.Forall₂ (HeaderRead buf) req.headers head.lines

/-- The buffer starts like a request with a body. -/
def OpensBody (buf : List Byte) : Prop := ascii "POST " <+: buf ∨ ascii "PUT " <+: buf

instance (buf : List Byte) : Decidable (OpensBody buf) := by unfold OpensBody; infer_instance

variable {after : List Byte} {size : UInt64}

theorem HeadRead.decomposes {head : RequestHead} {before : List Byte} {remaining : UInt64}
    {req : Request} (read : HeadRead head.line head.lines before remaining req) :
    Decomposes head before req := ⟨read.line, read.headers⟩

theorem opensBody_of_hasBody {head : RequestHead} {buf : List Byte} (starts : head.bytes <+: buf)
    (hasBody : HasBody head.line.method) : OpensBody buf := by
  have opens : head.line.method ++ [SP] <+: buf := by
    refine List.IsPrefix.trans ?_ starts
    simp only [RequestHead.bytes, RequestLine.bytes, List.append_assoc, List.cons_append]
    exact (List.prefix_append_right_inj _).mpr ⟨_, rfl⟩
  rcases hasBody with post | put
  · rw [post] at opens
    exact Or.inl opens
  · rw [put] at opens
    exact Or.inr opens

variable (after size) in
/-- A head of the grammar is completed and stored, whatever follows it. -/
theorem parse_of_inGrammar {head : RequestHead} (inGrammar : InGrammar head) (rest : List Byte) :
    ∃ req, parse after (.fresh size) (head.bytes ++ rest) = .returned .completed req ∧
      Decomposes head (head.bytes ++ rest) req := by
  have shape : head.bytes = (head.line.bytes ++ (headerBytes head.lines ++ [CR])) ++ [LF] := by
    simp [RequestHead.bytes]
  obtain ⟨l, inside, state, read⟩ :=
    (runs_head after head inGrammar.good size).feed ([LF] ++ rest)
  have stored : Decomposes head (head.bytes ++ rest) l.req := by
    rw [shape, List.append_assoc]
    exact (read.append _).decomposes
  by_cases empty : head.lines = []
  · rw [if_pos empty] at state
    refine ⟨l.req, parse_of_left ?_, stored⟩
    rw [shape, List.append_assoc, feed_append_of_inside (by rw [List.append_nil]; exact inside),
      List.singleton_append, feed_cons_leave]
    rw [turn]
    simp only [state, if_true]
    rfl
  · cases rest with
    | nil =>
      obtain ⟨before, l, parsed, whole, read⟩ := parse_head after head inGrammar.good size
      rw [List.append_nil]
      exact ⟨l.req, parsed, whole ▸ (read.append _).decomposes⟩
    | cons byte others =>
      obtain ⟨l, inside, state, read⟩ := feed_head after head inGrammar.good empty size
        (List.cons_ne_nil byte others)
      refine ⟨l.req, parse_of_left ?_, (read.append _).decomposes⟩
      rw [feed_append_of_inside (by rw [List.append_nil]; exact inside), List.nil_append,
        feed_cons_leave]
      rw [turn]
      simp only [state]
      rw [if_neg fun compared =>
        inGrammar.bodiless ((same_method_iff read.line.method).mp compared)]

variable (after) in
/-- In the request line nothing is completed. -/
theorem turn_inLine_completed (before ahead : List Byte) (curChar : Byte) {l : Locals}
    (state : l.state.InLine) : (turn after before curChar ahead l).Leads (fun _ _ => True)
      (fun outcome => outcome.verdict ≠ some .completed) := by
  obtain ⟨_, prevIt, remaining, req⟩ := l
  rcases state with rfl | rfl | rfl | rfl | rfl | rfl | rfl | rfl | rfl <;>
    · simp only [turn]
      repeat' split
      all_goals first | trivial | exact fun same => by cases same

variable (after) in
/-- In the header lines a request is completed only behind a head. -/
theorem turn_headerTrail_completed {before : List Byte} (ahead : List Byte) (curChar : Byte)
    {l : Locals}
    (trail : HeaderTrail before l) : (turn after before curChar ahead l).Leads (fun _ _ => True)
      (fun outcome => outcome.verdict = some .completed → ∃ head : RequestHead, head.WellFormed ∧
        head.bytes <+: before ++ curChar :: ahead) := by
  obtain ⟨state, prevIt, remaining, req⟩ := l
  cases state <;> simp only [HeaderTrail] at trail
  case versionEndRnr =>
    obtain ⟨line, good, rfl, _⟩ := trail
    simp only [turn]
    split
    · rename_i feed
      refine fun _ =>
        ⟨⟨line, []⟩, ⟨good, fun _ member => absurd member List.not_mem_nil⟩, ahead, ?_⟩
      rw [feed]
      simp [RequestHead.bytes, headerBytes]
    · exact fun same => by cases same
  case headerRnr =>
    obtain ⟨head, done, rfl⟩ := trail
    simp only [turn]
    split
    · rename_i feed
      have ended : head.bytes <+: head.line.bytes ++ headerBytes head.lines ++ [CR] ++
          curChar :: ahead := by
        refine ⟨ahead, ?_⟩
        rw [feed]
        simp [RequestHead.bytes]
      split
      · exact fun _ => ⟨head, done.good, ended⟩
      · trivial
    · exact fun same => by cases same
  case headerRnrn =>
    obtain ⟨head, done, rfl⟩ := trail
    cases turned : turn after head.bytes curChar ahead ⟨.headerRnrn, prevIt, remaining, req⟩ with
    | leave outcome notes => exact fun _ => ⟨head, done.good, List.prefix_append _ _⟩
    | go next notes => trivial
    | jump count next notes => trivial
  case headerValueStart =>
    simp only [turn, finishHeaderValue]
    repeat' split
    all_goals first | trivial | exact fun same => by cases same
  all_goals
    simp only [turn]
    repeat' split
    all_goals first | trivial | exact fun same => by cases same

/-- What is completed starts with a head. -/
theorem exists_head_of_completed {buf : List Byte}
    (completed : (parse after (.fresh size) buf).verdict = some .completed) :
    ∃ head : RequestHead, head.WellFormed ∧ head.bytes <+: buf := by
  cases ended : feed (turn after) [] buf [] 0 (start (.fresh size)) with
  | inside skip l =>
    obtain ⟨rfl, _⟩ := trail_of_feed ended
    rw [parse_of_inside ended] at completed
    cases completed
  | left outcome =>
    rw [parse_of_left ended] at completed
    obtain ⟨first, symbol, second, reached, notes, rfl, inside, leave⟩ := exists_leave_of_feed ended
    rw [List.append_nil] at inside leave
    have further {head : RequestHead} {more : List Byte} (split : first = head.bytes ++ more)
        (good : head.WellFormed) :
        ∃ head : RequestHead, head.WellFormed ∧ head.bytes <+: first ++ symbol :: second := by
      refine ⟨head, good, more ++ symbol :: second, ?_⟩
      rw [split, List.append_assoc]
    rcases (trail_of_feed inside).2 with ⟨_, _, line⟩ | header |
      ⟨_, head, body, good, _, _, split⟩ | ⟨head, boundary, body, multipart, split, _⟩
    · have leads := turn_inLine_completed after ([] ++ first) second symbol
        (inLine_of_lineTrail line)
      rw [leave] at leads
      exact absurd completed leads
    · have leads := turn_headerTrail_completed after second symbol header
      rw [List.nil_append] at leave
      rw [leave] at leads
      exact leads completed
    · exact further split good
    · exact further split multipart.good

/-! ### Errors -/

/-- Two loops that differ at most in the sizes they have read. -/
def SameUpToSize (l l' : Locals) : Prop :=
  ∃ remaining contentSize, l' = { l with
    remainingContentSize := remaining, req := { l.req with contentSize } }

/-- The second turn goes where the first one goes. A body of fixed length is let go: how far it
reaches depends on a size, but it has no errors. -/
def Follows : ParseTurn → ParseTurn → Prop
  | .leave outcome _, turned =>
      outcome.verdict = some .error → ∃ req notes, turned = .leave (.returned .error req) notes
  | .go next _, turned =>
      next.state = .postDataStart ∨
        ∃ next' notes, turned = .go next' notes ∧ SameUpToSize next next'
  | .jump _ _ _, _ => False

theorem follows_error (req req' : Request) (notes notes' : List StringView) :
    Follows (.leave (.returned .error req) notes) (.leave (.returned .error req') notes') :=
  fun _ => ⟨req', notes', rfl⟩

theorem follows_completed (req : Request) (notes : List StringView) (turned : ParseTurn) :
    Follows (.leave (.returned .completed req) notes) turned := fun failed => by cases failed

theorem follows_undefined (req : Request) (notes : List StringView) (turned : ParseTurn) :
    Follows (.leave (.undefined req) notes) turned := fun failed => by cases failed

theorem finishHeaderValue_follows (memory memory' before : List Byte) (it : Int) {l l' : Locals}
    (same : SameUpToSize l l') :
    Follows (finishHeaderValue memory before it l) (finishHeaderValue memory' before it l') := by
  obtain ⟨remaining, contentSize, rfl⟩ := same
  unfold finishHeaderValue Request.setLastValue
  simp only
  cases l.req.headers.getLast? with
  | none => exact follows_undefined _ _ _
  | some header =>
    simp only [Option.map_some]
    split
    · exact Or.inr ⟨_, _, rfl, _, _, rfl⟩
    · split
      · exact Or.inr ⟨_, _, rfl, _, _, rfl⟩
      · exact Or.inr ⟨_, _, rfl, _, _, rfl⟩

theorem matchBoundaryBackwards_follows (before : List Byte) (it : Int) {l l' : Locals}
    (same : SameUpToSize l l') :
    Follows (matchBoundaryBackwards before it l) (matchBoundaryBackwards before it l') := by
  obtain ⟨remaining, contentSize, rfl⟩ := same
  unfold matchBoundaryBackwards Request.setLastData
  simp only
  cases l.req.parts.getLast? with
  | none =>
    simp only [Option.map_none]
    repeat' split
    all_goals first
      | exact follows_undefined _ _ _
      | exact Or.inr ⟨_, _, rfl, _, _, rfl⟩
  | some part =>
    simp only [Option.map_some]
    repeat' split
    all_goals exact Or.inr ⟨_, _, rfl, _, _, rfl⟩

variable (after) in
/-- With other bytes ahead a turn goes where it would have gone. -/
theorem turn_follows (after' before ahead more : List Byte) (curChar : Byte) {l l' : Locals}
    (same : SameUpToSize l l') :
    Follows (turn after before curChar ahead l)
      (turn after' before curChar (ahead ++ more) l') := by
  by_cases value : l.state = .headerValueStart ∧ curChar = CR
  · obtain ⟨remaining, contentSize, sameLocals⟩ := id same
    have value' : l'.state = .headerValueStart := by rw [sameLocals]; exact value.1
    simp only [turn, value.1, value', value.2, if_true]
    exact finishHeaderValue_follows _ _ before _ same
  by_cases body : l.state = .partBodyStart ∧ curChar = CR
  · obtain ⟨remaining, contentSize, sameLocals⟩ := id same
    have body' : l'.state = .partBodyStart := by rw [sameLocals]; exact body.1
    simp only [turn, body.1, body', body.2, if_true]
    exact matchBoundaryBackwards_follows before _ same
  obtain ⟨remaining, contentSize, rfl⟩ := same
  obtain ⟨state, prevIt, remaining', req⟩ := l
  cases state
  case headerRnr =>
    simp only [turn]
    split
    · by_cases last : ahead = []
      · rw [if_pos last]
        exact follows_completed _ _ _
      · rw [if_neg last, if_neg fun empty => last (List.append_eq_nil_iff.mp empty).1]
        exact Or.inr ⟨_, _, rfl, _, _, rfl⟩
    · exact follows_error _ _ _ _
  case headerRnrn =>
    simp only [turn]
    repeat' split
    all_goals first
      | exact follows_completed _ _ _
      | exact Or.inl rfl
      | exact follows_error _ _ _ _
      | exact Or.inr ⟨_, _, rfl, _, _, rfl⟩
  case postDataStart =>
    simp only [turn]
    split
    · exact follows_completed _ _ _
    · exact Or.inl rfl
  case headerValueStart =>
    have notEnd : curChar ≠ CR := fun ends => value ⟨rfl, ends⟩
    simp only [turn, if_neg notEnd]
    split
    · exact follows_error _ _ _ _
    · exact Or.inr ⟨_, _, rfl, _, _, rfl⟩
  case partBodyStart =>
    have notEnd : curChar ≠ CR := fun ends => body ⟨rfl, ends⟩
    simp only [turn, if_neg notEnd]
    exact Or.inr ⟨_, _, rfl, _, _, rfl⟩
  all_goals
    simp only [turn]
    repeat' split
    all_goals first
      | exact follows_completed _ _ _
      | exact follows_error _ _ _ _
      | exact Or.inr ⟨_, _, rfl, _, _, rfl⟩

/-- A body of fixed length has no errors. -/
theorem feed_postData {before input ahead : List Byte} {l : Locals} {outcome : Outcome}
    (state : l.state = .postDataStart)
    (left : feed (turn after) before input ahead 0 l = .left outcome) :
    outcome.verdict ≠ some .error := by
  have leads : (feed (turn after) before input ahead 0 l).Leads
      (fun skip l => skip = 0 ∧ l.state = .postDataStart)
      (fun outcome => outcome.verdict ≠ some .error) := by
    refine feed_invariant_of_no_jump (fun _ (l : Locals) => l.state = .postDataStart) state ?_
    intro before' symbol after' l' _ state'
    simp only [turn, state']
    split
    · exact fun same => by cases same
    · exact ⟨rfl, rfl⟩
  rw [left] at leads
  exact leads

theorem feed_error (after' : List Byte) {before input : List Byte} (more : List Byte)
    {l l' : Locals} {outcome : Outcome} (same : SameUpToSize l l')
    (failed : outcome.verdict = some .error)
    (left : feed (turn after) before input [] 0 l = .left outcome) :
    ∃ req, feed (turn after') before (input ++ more) [] 0 l' = .left (.returned .error req) := by
  induction input generalizing before l l' with
  | nil => cases left
  | cons symbol rest inductionHypothesis =>
    have follows := turn_follows after after' before (rest ++ []) more symbol same
    rw [feed_cons] at left
    rw [List.append_nil] at left follows
    rw [List.cons_append, feed_cons, List.append_nil]
    cases turned : turn after before symbol rest l with
    | leave outcome' notes =>
      rw [turned] at left follows
      cases left
      obtain ⟨req, notes', turned'⟩ := follows failed
      exact ⟨req, by rw [turned']⟩
    | go next notes =>
      rw [turned] at left follows
      rcases follows with state | ⟨next', notes', turned', same'⟩
      · exact absurd failed (feed_postData state left)
      · obtain ⟨req, left'⟩ := inductionHypothesis same' left
        exact ⟨req, by rw [turned']; exact left'⟩
    | jump count next notes =>
      rw [turned] at follows
      exact absurd follows id

/-- An error is final, whatever follows, in the buffer and behind it. -/
theorem parse_append_of_error (after' : List Byte) (size' : UInt64) {buf : List Byte}
    (failed : (parse after (.fresh size) buf).verdict = some .error) (more : List Byte) :
    (parse after' (.fresh size') (buf ++ more)).verdict = some .error := by
  cases ended : feed (turn after) [] buf [] 0 (start (.fresh size)) with
  | inside skip l =>
    obtain ⟨rfl, _⟩ := trail_of_feed ended
    rw [parse_of_inside ended] at failed
    cases failed
  | left outcome =>
    rw [parse_of_left ended] at failed
    obtain ⟨req, left⟩ := feed_error after' more
      (⟨0, size', rfl⟩ : SameUpToSize (start (.fresh size)) (start (.fresh size'))) failed ended
    rw [parse_of_left left]
    rfl

/-! ### The grammar -/

/-- What a buffer is taken for. -/
structure AcceptsGrammar (after : List Byte) (size : UInt64) (buf : List Byte) : Prop where
  /-- What does not start like a request with a body is completed just if it starts with a head. -/
  completed : ¬ OpensBody buf →
    ((parse after (.fresh size) buf).verdict = some .completed ↔
      ∃ head, InGrammar head ∧ head.bytes <+: buf)
  /-- There is only one such head, and it is stored. -/
  decomposed : ∀ head, InGrammar head → head.bytes <+: buf →
    Decomposes head buf (parse after (.fresh size) buf).request ∧
      ∀ other, InGrammar other → other.bytes <+: buf → other = head
  /-- An error stays one on every extension. -/
  final : (parse after (.fresh size) buf).verdict = some .error →
    ∀ after' size' more, (parse after' (.fresh size') (buf ++ more)).verdict = some .error

theorem acceptsGrammar (after : List Byte) (size : UInt64) (buf : List Byte) :
    AcceptsGrammar after size buf where
  completed notBody := by
    constructor
    · intro completed
      obtain ⟨head, good, starts⟩ := exists_head_of_completed completed
      exact ⟨head, ⟨good, fun hasBody => notBody (opensBody_of_hasBody starts hasBody)⟩, starts⟩
    · rintro ⟨head, inGrammar, rest, rfl⟩
      obtain ⟨req, parsed, _⟩ := parse_of_inGrammar after size inGrammar rest
      rw [parsed]
      rfl
  decomposed head inGrammar starts := by
    obtain ⟨rest, rfl⟩ := starts
    obtain ⟨req, parsed, stored⟩ := parse_of_inGrammar after size inGrammar rest
    refine ⟨by rw [parsed]; exact stored, fun other inGrammar' ⟨rest', same⟩ => ?_⟩
    exact (head_inj inGrammar'.good inGrammar.good same).1
  final failed after' size' more := parse_append_of_error after' size' failed more

end RequestParser

end Sheep
