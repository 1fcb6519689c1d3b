/-
This file decides when a multipart body is read back as the parts it was built
from: exactly when the boundary text is found where it was meant to be, does not
consist of dashes, and no carriage return in a part's data follows a copy of it.
A carriage return that does stores wrong data, and stored data stays.
-/

import Sheep.RequestMultipart

namespace Sheep

open ScanLoop

namespace RequestParser

/-! ### The parts through a run -/

/-- Between the empty line after a part's info and the end of its data. -/
def State.InPart (state : State) : Prop :=
  state = .partInfoRnr ∨ state = .partInfoRnrn ∨ state = .partBodyStart

theorem finishHeaderValue_cases (memory before : List Byte) (it : Int) (l : Locals) :
    (∃ l' notes, finishHeaderValue memory before it l = .go l' notes ∧
      l'.state = .headerR ∧ l'.req.parts = l.req.parts) ∨
    ∃ notes, finishHeaderValue memory before it l = .leave (.undefined l.req) notes := by
  simp only [finishHeaderValue]
  cases stored : l.req.setLastValue (.range l.prevIt it) with
  | none => exact Or.inr ⟨_, rfl⟩
  | some result =>
    obtain ⟨header, req⟩ := result
    have parts : req.parts = l.req.parts := by
      obtain ⟨last, _, same⟩ := Option.map_eq_some_iff.mp stored
      injection same with _ same
      rw [← same]
    refine Or.inl ?_
    simp only
    split
    · exact ⟨_, _, rfl, rfl, parts⟩
    · split
      · exact ⟨_, _, rfl, rfl, parts⟩
      · exact ⟨_, _, rfl, rfl, parts⟩

theorem matchBoundaryBackwards_cases (before : List Byte) (it : Int) (l : Locals) :
    (∃ notes, matchBoundaryBackwards before it l = .go l notes) ∨
    (∃ data req state notes, l.req.setLastData data = some req ∧
      (state = .boundaryMatchR ∨ state = .lastBoundaryMatch) ∧
      matchBoundaryBackwards before it l = .go { l with state, req } notes) ∨
    ∃ notes, matchBoundaryBackwards before it l = .leave (.undefined l.req) notes := by
  have store (state : State) (data : StringView) (notes : List StringView)
      (ends : state = .boundaryMatchR ∨ state = .lastBoundaryMatch) (turned : ParseTurn)
      (onNone : l.req.setLastData data = none → turned = .leave (.undefined l.req) notes)
      (onSome : ∀ req, l.req.setLastData data = some req →
        turned = .go { l with state, req } notes) :
      (∃ data req state notes, l.req.setLastData data = some req ∧
        (state = .boundaryMatchR ∨ state = .lastBoundaryMatch) ∧
        turned = .go { l with state, req } notes) ∨
      ∃ notes, turned = .leave (.undefined l.req) notes := by
    cases stored : l.req.setLastData data with
    | none => exact Or.inr ⟨notes, onNone stored⟩
    | some req => exact Or.inl ⟨data, req, state, notes, stored, ends, onSome req stored⟩
  unfold matchBoundaryBackwards
  simp only
  split
  · exact Or.inr (store _ _ _ (Or.inl rfl) _ (fun none => by rw [none]) fun _ some => by rw [some])
  · split
    · split
      · exact Or.inr (store _ _ _ (Or.inr rfl) _ (fun none => by rw [none])
          fun _ some => by rw [some])
      · exact Or.inl ⟨_, rfl⟩
    · exact Or.inl ⟨_, rfl⟩

/-- What a turn can do to the parts. -/
theorem turn_parts (after before ahead : List Byte) (curChar : Byte) (l : Locals) :
    (turn after before curChar ahead l).Leads
      (fun skip next => skip = 0 ∧
        ((next.req.parts = l.req.parts ∧ (next.state.InPart → l.state.InPart)) ∨
          (∃ part, next.req.parts = l.req.parts ++ [part]) ∨
          (l.state = .partBodyStart ∧ ¬ next.state.InPart ∧
            ∃ data, l.req.setLastData data = some next.req)))
      (fun outcome => outcome.request.parts = l.req.parts) := by
  obtain ⟨state, prevIt, remaining, req⟩ := l
  cases state
  case headerValueStart =>
    rw [turn]
    simp only
    split
    · rcases finishHeaderValue_cases (before ++ curChar :: ahead ++ after) before before.length
        ⟨.headerValueStart, prevIt, remaining, req⟩ with
        ⟨l', notes, turned, state, parts⟩ | ⟨notes, turned⟩
      · rw [turned]
        exact ⟨rfl, Or.inl ⟨parts, by simp [state, State.InPart]⟩⟩
      · rw [turned]
        rfl
    · split
      · rfl
      · exact ⟨rfl, Or.inl ⟨rfl, id⟩⟩
  case partBodyStart =>
    rw [turn]
    simp only
    split
    · rcases matchBoundaryBackwards_cases before before.length
        ⟨.partBodyStart, prevIt, remaining, req⟩ with ⟨notes, turned⟩ |
          ⟨data, req', state, notes, stored, ends, turned⟩ | ⟨notes, turned⟩
      · rw [turned]
        exact ⟨rfl, Or.inl ⟨rfl, id⟩⟩
      · rw [turned]
        refine ⟨rfl, Or.inr (Or.inr ⟨trivial, ?_, data, stored⟩)⟩
        rcases ends with rfl | rfl <;> simp [State.InPart]
      · rw [turned]
        rfl
    · exact ⟨rfl, Or.inl ⟨rfl, id⟩⟩
  all_goals
    simp only [turn]
    repeat' split
    all_goals first
      | rfl
      | exact ⟨rfl, Or.inl ⟨rfl, by simp [State.InPart]⟩⟩
      | exact ⟨rfl, Or.inr (Or.inl ⟨_, rfl⟩)⟩

/-- A part whose data is stored and will not be stored again. -/
def Frozen (index : Nat) (part : Request.Part) (l : Locals) : Prop :=
  l.req.parts[index]? = some part ∧ (l.state.InPart → index + 1 < l.req.parts.length)

theorem setLastData_getElem? {req req' : Request} {data : StringView} {index : Nat}
    {part : Request.Part} (stored : req.setLastData data = some req')
    (present : req.parts[index]? = some part) (earlier : index + 1 < req.parts.length) :
    req'.parts[index]? = some part := by
  obtain ⟨last, _, rfl⟩ := Option.map_eq_some_iff.mp stored
  have inside : index < req.parts.dropLast.length := by
    rw [List.length_dropLast]
    omega
  rw [List.getElem?_append_left inside, List.getElem?_dropLast, if_pos (by omega), present]

/-- A turn keeps a frozen part. -/
theorem turn_frozen {after before ahead : List Byte} {curChar : Byte} {l : Locals} {index : Nat}
    {part : Request.Part} (frozen : Frozen index part l) :
    (turn after before curChar ahead l).Leads (fun skip next => skip = 0 ∧ Frozen index part next)
      (fun outcome => outcome.request.parts[index]? = some part) := by
  obtain ⟨present, later⟩ := frozen
  refine (turn_parts after before ahead curChar l).mono ?_ fun outcome same => by rw [same, present]
  rintro skip next ⟨zero, ⟨same, back⟩ | ⟨added, same⟩ | ⟨state, outside, data, stored⟩⟩
  · exact ⟨zero, by rw [same, present], fun inPart => by rw [same]; exact later (back inPart)⟩
  · have inside := (List.getElem?_eq_some_iff.mp present).1
    refine ⟨zero, ?_, fun _ => ?_⟩
    · rw [same, List.getElem?_append_left inside, present]
    · rw [same, List.length_append, List.length_singleton]
      omega
  · have earlier := later (Or.inr (Or.inr state))
    exact ⟨zero, setLastData_getElem? stored present earlier, fun inPart => absurd inPart outside⟩

/-- A run keeps a frozen part. -/
theorem feed_frozen {after before input : List Byte} {l : Locals} {index : Nat}
    {part : Request.Part} (frozen : Frozen index part l) :
    (feed (turn after) before input [] 0 l).Leads
      (fun skip next => skip = 0 ∧ Frozen index part next)
      (fun outcome => outcome.request.parts[index]? = some part) :=
  feed_invariant_of_no_jump (fun _ l => Frozen index part l) frozen
    fun _ _ _ _ _ holds => turn_frozen holds

/-! ### Messages with a multipart body -/

/-- A request with a multipart body. The value of its `Content-Type` ends with the boundary. -/
structure FormMessage where
  line : RequestLine
  front : List HeaderLine
  spaced : Bool
  lead : List Byte
  boundary : List Byte
  back : List HeaderLine
  parts : List FormPart
deriving DecidableEq, Repr

namespace FormMessage

def value (message : FormMessage) : List Byte :=
  message.lead ++ ascii "boundary=" ++ message.boundary

def contentType (message : FormMessage) : HeaderLine :=
  { name := ascii "Content-Type", spaced := message.spaced, value := message.value }

def head (message : FormMessage) : RequestHead :=
  { line := message.line, lines := message.front ++ message.contentType :: message.back }

def body (message : FormMessage) : List Byte := formBody message.boundary message.parts

def bytes (message : FormMessage) : List Byte := message.head.bytes ++ message.body

/-- The header announces the boundary, a non-empty text of printable characters, last, and the
body has parts. -/
structure WellFormed (message : FormMessage) : Prop where
  head : message.head.WellFormed
  method : HasBody message.line.method
  multipart : isMultipartInHeaderValue message.value = true
  last : ∀ header ∈ message.back, pickBoundary header = none
  nonempty : message.boundary ≠ []
  printable : ∀ byte ∈ message.boundary, 33 ≤ byte.toNat ∧ byte.toNat ≤ 126
  parts : message.parts ≠ []
  good : ∀ part ∈ message.parts, part.WellFormed message.boundary

/-- The parser recognises the delimiters of the message and nothing else: the first `boundary=`
of the value is the one before the boundary, the boundary has a byte that is no dash, and no
carriage return at or before the end of a part's data follows a copy of the boundary. -/
structure Recognisable (message : FormMessage) : Prop where
  announced : boundaryText message.value = message.boundary
  dashes : ¬ ∀ byte ∈ message.boundary, byte = chr '-'
  quiet : ∀ part ∈ message.parts, Quiet message.boundary (part.data ++ [CR])

end FormMessage

/-- Parsing the message completes with exactly its parts. -/
def RoundTrip (after : List Byte) (size : UInt64) (message : FormMessage) : Prop :=
  ∃ req, parse after (.fresh size) message.bytes = .returned .completed req ∧
    List.Forall₂ (PartRead message.bytes) req.parts message.parts

namespace FormMessage

variable {message : FormMessage}

theorem WellFormed.noCR (good : message.WellFormed) : CR ∉ message.boundary := by
  intro member
  have low := (good.printable CR member).1
  exact absurd low (by decide)

theorem WellFormed.noLF (good : message.WellFormed) : LF ∉ message.boundary := by
  intro member
  have low := (good.printable LF member).1
  exact absurd low (by decide)

theorem WellFormed.token (good : message.WellFormed) : Token Plain Plain message.boundary := by
  refine plain_of_token good.nonempty fun byte member => ?_
  have range := good.printable byte member
  refine Bool.eq_false_iff.mpr fun control => ?_
  have outside := (isHttpControl_iff byte).mp control
  omega

theorem WellFormed.boundaryOf_lines (good : message.WellFormed) :
    boundaryOf message.head.lines = some (boundaryText message.value) := by
  have picked : pickBoundary message.contentType = some (boundaryText message.value) :=
    if_pos ⟨rfl, good.multipart⟩
  have none : message.back.filterMap pickBoundary = [] :=
    List.filterMap_eq_nil_iff.mpr good.last
  rw [boundaryOf, FormMessage.head, List.filterMap_append, List.filterMap_cons_some picked, none,
    List.getLast?_append]
  rfl

theorem head_lines_ne_nil (message : FormMessage) : message.head.lines ≠ [] := by
  simp [head]

theorem body_ne_nil (message : FormMessage) : message.body ≠ [] := by
  simp [body, formBody, ascii]

end FormMessage

section Message

variable {after : List Byte} {message : FormMessage}

/-- What the head leaves behind for the body. -/
structure BodyStart (message : FormMessage) (l : Locals) : Prop where
  state : l.state = .headerRnrn
  method : l.req.method.text message.head.bytes = some message.line.method
  multipart : l.req.isMultipart = true
  noParts : l.req.parts = []
  denotes : l.req.partBoundary.text message.head.bytes = some (boundaryText message.value)
  within : (boundaryText message.value).length ≤ message.head.bytes.length

theorem feed_messageHead (after : List Byte) (good : message.WellFormed) (size : UInt64)
    {rest : List Byte} (nonempty : rest ≠ []) :
    ∃ l, feed (turn after) [] message.head.bytes rest 0 (start (.fresh size)) = .inside 0 l ∧
      BodyStart message l := by
  obtain ⟨l, inside, state, read⟩ :=
    feed_head after message.head good.head message.head_lines_ne_nil size nonempty
  have announced := good.boundaryOf_lines
  refine ⟨l, inside, state, read.line.method, ?_, read.parts, ?_, ?_⟩
  · rw [read.multipart, announced]
    rfl
  · rw [read.boundary, announced]
    rfl
  · have inLines := length_le_of_boundaryOf announced
    refine le_trans inLines ?_
    rw [RequestHead.bytes, List.length_append, List.length_append]
    omega

/-- The body up to the line end of the delimiter of some part, when all earlier parts are
quiet. -/
theorem runs_upToPart (after : List Byte) (good : message.WellFormed) {l : Locals}
    (begun : BodyStart message l) (announced : boundaryText message.value = message.boundary)
    {front : List FormPart}
    (goodFront : ∀ part ∈ front, part.WellFormed message.boundary)
    (quiet : ∀ part ∈ front, Quiet message.boundary (part.data ++ [CR])) :
    Runs (turn after) message.head.bytes ((ascii "--" ++ message.boundary ++ crlf) ++
      front.flatMap (fun earlier => earlier.inner message.boundary ++ crlf)) l fun before l' =>
        l'.state = .boundaryMatchRn ∧
        PartsRead l.req l.remainingContentSize front before l' := by
  have denotes := begun.denotes
  have within := begun.within
  rw [announced] at denotes within
  refine Runs.append (runs_opening begun.state begun.method good.method begun.multipart
    begun.noParts good.token denotes) ?_
  rintro l' ⟨state, read⟩
  refine (runs_middleParts front read goodFront state (StringView.text_append denotes _) ?_
    good.noLF good.noCR quiet).mono fun l'' reached => by simpa using reached
  rw [List.length_append]
  omega

theorem body_eq_dropLast (message : FormMessage) :
    message.body = message.body.dropLast ++ [LF] := by
  have shape : message.body = (message.parts.flatMap (FormPart.bytes message.boundary) ++
      ascii "--" ++ message.boundary ++ ascii "--" ++ [CR]) ++ [LF] := by
    simp [FormMessage.body, formBody]
  rw [shape, List.dropLast_concat]

/-- The whole body but its last byte goes through. It ends as it should unless the boundary is
made of dashes: then the closing delimiter looks like any other. -/
theorem runs_messageBody (after : List Byte) (good : message.WellFormed) {l : Locals}
    (begun : BodyStart message l)
    (announced : boundaryText message.value = message.boundary)
    (quiet : ∀ part ∈ message.parts, Quiet message.boundary (part.data ++ [CR])) :
    Runs (turn after) message.head.bytes message.body.dropLast l fun before l' =>
      ((∀ byte ∈ message.boundary, byte = chr '-') ∧ l'.state = .boundaryMatchR) ∨
      ((¬ ∀ byte ∈ message.boundary, byte = chr '-') ∧ l'.state = .lastBoundaryMatch ∧
        List.Forall₂ (PartRead before) l'.req.parts message.parts) := by
  obtain ⟨front, part, same⟩ : ∃ front part, message.parts = front ++ [part] :=
    (List.eq_nil_or_concat' message.parts).resolve_left good.parts
  have denotes := begun.denotes
  have within := begun.within
  rw [announced] at denotes within
  have goodParts := good.good
  rw [same] at goodParts quiet ⊢
  have split : message.body = ((ascii "--" ++ message.boundary ++ crlf) ++
      front.flatMap (fun earlier => earlier.inner message.boundary ++ crlf) ++
        (part.inner message.boundary ++ ascii "--" ++ [CR])) ++ [LF] := by
    rw [FormMessage.body, same, formBody_split]
    simp
  rw [split, List.dropLast_concat]
  refine Runs.append (runs_upToPart after good begun announced
    (fun earlier member => goodParts earlier (List.mem_append_left _ member))
    (fun earlier member => quiet earlier (List.mem_append_left _ member))) ?_
  rintro l' ⟨state, read⟩
  refine (runs_closing read (goodParts part (by simp)) state (StringView.text_append denotes _)
    (by rw [List.length_append]; omega) good.noLF good.noCR (quiet part (by simp))).mono ?_
  rintro l'' (looping | ⟨dashes, state', _, stored, sameReq, texts⟩)
  · exact Or.inl looping
  · exact Or.inr ⟨dashes, state', by rw [sameReq]; exact texts⟩

/-- Feeding a message is feeding its body from where the head ends. -/
theorem feed_message {size : UInt64} {l : Locals} {rest : List Byte}
    (inside : feed (turn after) [] message.head.bytes rest 0 (start (.fresh size)) = .inside 0 l) :
    feed (turn after) [] (message.head.bytes ++ rest) [] 0 (start (.fresh size)) =
      feed (turn after) message.head.bytes rest [] 0 l := by
  rw [feed_append_of_inside (by rw [List.append_nil]; exact inside), List.nil_append]

/-- Recognisable messages round trip. -/
theorem roundTrip_of_recognisable (good : message.WellFormed) (size : UInt64)
    (recognisable : message.Recognisable) : RoundTrip after size message := by
  obtain ⟨l, inside, begun⟩ := feed_messageHead after good size message.body_ne_nil
  obtain ⟨l', inside', ⟨dashes, _⟩ | ⟨_, state, texts⟩⟩ := (runs_messageBody after good
    begun recognisable.announced recognisable.quiet).feed [LF]
  · exact absurd dashes recognisable.dashes
  refine ⟨l'.req, parse_of_left ?_, ?_⟩
  · rw [FormMessage.bytes, feed_message inside, body_eq_dropLast, feed_append_of_inside inside',
      feed_cons_leave]
    rw [turn]
    simp only [state, if_true]
    rfl
  · rw [FormMessage.bytes, body_eq_dropLast, ← List.append_assoc]
    exact List.Forall₂.imp (fun _ _ read => read.append [LF]) texts

/-- A message whose boundary is found elsewhere is refused at its first delimiter. -/
theorem announced_of_roundTrip (good : message.WellFormed) {size : UInt64}
    (roundTrip : RoundTrip after size message) :
    boundaryText message.value = message.boundary := by
  by_contra other
  obtain ⟨l, inside, begun⟩ := feed_messageHead after good size message.body_ne_nil
  obtain ⟨first, rest, same⟩ := List.exists_cons_of_ne_nil good.parts
  have split : message.body = (ascii "--" ++ message.boundary) ++ CR ::
      (LF :: (first.inner message.boundary ++
        (rest.flatMap (fun later => crlf ++ later.inner message.boundary) ++
          (ascii "--" ++ crlf)))) := by
    rw [FormMessage.body, same, ← List.nil_append (first :: rest), formBody_split]
    simp
  obtain ⟨l', inside', rfl⟩ := (runs_delimiter after begun.state begun.method
    good.method begun.multipart good.token).feed (CR ::
      (LF :: (first.inner message.boundary ++
        (rest.flatMap (fun later => crlf ++ later.inner message.boundary) ++
          (ascii "--" ++ crlf)))))
  have refused : parse after (.fresh size) message.bytes = .returned .error l.req := by
    refine parse_of_left ?_
    rw [FormMessage.bytes, feed_message inside, split,
      feed_append_of_inside (by rw [List.append_nil]; exact inside'), feed_cons_leave]
    rw [turn]
    simp only [if_true]
    rw [if_neg fun compared => other ((delimiter_same_iff begun.denotes).mp compared).symm]
  obtain ⟨req, completed, _⟩ := roundTrip
  rw [refused] at completed
  injection completed with wrong
  cases wrong

/-- A copy of the boundary before a carriage return in the data stores data too short, for
good. -/
theorem runs_falseHit {before boundary left right : List Byte} {l : Locals} {part : FormPart}
    {parts : List FormPart} {req : Request} {remaining : UInt64}
    (read : PartsRead req remaining parts before l)
    (good : part.WellFormed boundary) (state : l.state = .boundaryMatchRn)
    (denotes : req.partBoundary.text before = some boundary)
    (within : boundary.length ≤ before.length) (noLF : LF ∉ boundary) (nonempty : boundary ≠ [])
    (split : part.data ++ [CR] = left ++ CR :: right) (hit : Hit boundary left)
    (quiet : Quiet boundary left) :
    Runs (turn after) before (part.infoText ++ (crlf ++ crlf) ++ left ++ [CR]) l fun _ l' =>
      ∃ wrong, Frozen parts.length wrong l' ∧ wrong.data.size < part.data.length := by
  obtain ⟨_, stored, sameReq, texts⟩ := read
  have leftNonempty : left ≠ [] := by
    rintro rfl
    exact not_hit_nil nonempty hit
  have shorter : left.length ≤ part.data.length := by
    have lengths := congrArg List.length split
    simp only [List.length_append, List.length_cons, List.length_nil] at lengths
    omega
  rw [List.append_assoc (part.infoText ++ (crlf ++ crlf))]
  refine Runs.append (runs_info part good.nonempty good.lines state) ?_
  rintro opened reachedOpened
  have shift : before ++ (part.infoText ++ (crlf ++ crlf)) =
      (before ++ part.infoText ++ crlf ++ [CR]) ++ [LF] := by simp
  have room : boundary.length ≤ (before ++ part.infoText ++ crlf ++ [CR]).length := by
    simp only [List.length_append]
    omega
  have denotesOpened : opened.req.partBoundary.text (before ++ part.infoText ++ crlf ++ [CR]) =
      some boundary := by
    rw [reachedOpened, sameReq]
    have grown := StringView.text_append denotes (part.infoText ++ crlf ++ [CR])
    simpa using grown
  rw [shift]
  refine Runs.append (runs_body left leftNonempty (by rw [reachedOpened]) denotesOpened room noLF
    quiet) ?_
  rintro inside reached
  rw [List.append_assoc, List.singleton_append]
  have later : inside.req.partBoundary.text
      ((before ++ part.infoText ++ crlf ++ [CR]) ++ LF :: left) = some boundary := by
    rw [reached]
    exact StringView.text_append denotesOpened _
  have storedInside : inside.req.parts = stored ++
      [{ info := .range before.length (before ++ part.infoText).length }] := by
    rw [reached, reachedOpened, sameReq]
  have count : stored.length = parts.length := texts.length_eq
  refine runs_cons fun ahead => ?_
  rw [turn]
  simp only [show inside.state = .partBodyStart by rw [reached], if_true]
  by_cases ends : boundary <:+ left
  · rw [matchBoundaryBackwards_boundary later room noLF storedInside ends, onward_go]
    refine runs_nil ⟨_, ⟨by rw [← count]; exact List.getElem?_concat_length, ?_⟩, ?_⟩
    · simp [State.InPart]
    · rw [reached]
      simp only [StringView.size, List.length_append, List.length_cons, List.length_nil]
      omega
  · rw [matchBoundaryBackwards_last later room noLF storedInside ends (hit.resolve_left ends),
      onward_go]
    refine runs_nil ⟨_, ⟨by rw [← count]; exact List.getElem?_concat_length, ?_⟩, ?_⟩
    · simp [State.InPart]
    · rw [reached]
      simp only [StringView.size, List.length_append, List.length_cons, List.length_nil]
      omega

/-- At the first part with a copy of the boundary before a carriage return, wrong data is stored
for good. What follows does not matter. -/
theorem exists_frozen_of_loud (after : List Byte) (good : message.WellFormed) (size : UInt64)
    (announced : boundaryText message.value = message.boundary) {front back : List FormPart}
    {part : FormPart} (same : message.parts = front ++ part :: back)
    (quiet : ∀ earlier ∈ front, Quiet message.boundary (earlier.data ++ [CR]))
    (loud : ¬ Quiet message.boundary (part.data ++ [CR])) :
    ∃ before rest l wrong, feed (turn after) [] message.bytes [] 0 (start (.fresh size)) =
        feed (turn after) before rest [] 0 l ∧
      Frozen front.length wrong l ∧ wrong.data.size < part.data.length := by
  obtain ⟨left, right, split, hit, quietLeft⟩ := (quiet_or_first_hit _ _).resolve_left loud
  obtain ⟨l, inside, begun⟩ := feed_messageHead after good size message.body_ne_nil
  have denotes := begun.denotes
  have within := begun.within
  rw [announced] at denotes within
  have goodParts := good.good
  rw [same] at goodParts
  have upTo := runs_upToPart after good begun announced
    (fun earlier member => goodParts earlier (List.mem_append_left _ member)) quiet
  have hitting := upTo.append fun l' ⟨state, read⟩ =>
    runs_falseHit read (goodParts part (by simp)) state (StringView.text_append denotes _)
      (by rw [List.length_append]; omega) good.noLF good.nonempty split hit quietLeft
  obtain ⟨rest, shape⟩ : ∃ rest, message.body = ((ascii "--" ++ message.boundary ++ crlf) ++
      front.flatMap (fun earlier => earlier.inner message.boundary ++ crlf) ++
        (part.infoText ++ (crlf ++ crlf) ++ left ++ [CR])) ++ rest := by
    refine ⟨right ++ (LF :: ascii "--" ++ message.boundary ++
      (back.flatMap (fun later => crlf ++ later.inner message.boundary) ++ (ascii "--" ++ crlf))),
      ?_⟩
    rw [FormMessage.body, same, formBody_split, FormPart.inner]
    have moved := congrArg (· ++ (LF :: ascii "--" ++ message.boundary ++
      (back.flatMap (fun later => crlf ++ later.inner message.boundary) ++ (ascii "--" ++ crlf))))
      split
    simpa using moved
  obtain ⟨l', inside', wrong, frozen, shorter⟩ := hitting.feed rest
  generalize (ascii "--" ++ message.boundary ++ crlf) ++
      front.flatMap (fun earlier => earlier.inner message.boundary ++ crlf) ++
        (part.infoText ++ (crlf ++ crlf) ++ left ++ [CR]) = opened at shape inside'
  refine ⟨message.head.bytes ++ opened, rest, l', wrong, ?_, frozen, shorter⟩
  rw [FormMessage.bytes, feed_message inside, shape,
    feed_append_of_inside (by rw [List.append_nil]; exact inside')]

/-- A message with a copy of the boundary before a carriage return in some data does not come
back. -/
theorem quiet_of_roundTrip (good : message.WellFormed) {size : UInt64}
    (announced : boundaryText message.value = message.boundary)
    (roundTrip : RoundTrip after size message) :
    ∀ part ∈ message.parts, Quiet message.boundary (part.data ++ [CR]) := by
  by_contra loud
  obtain ⟨front, part, back, same, quiet, failure⟩ := exists_first_failure loud
  obtain ⟨before, rest, l, wrong, whole, frozen, shorter⟩ :=
    exists_frozen_of_loud after good size announced same quiet failure
  obtain ⟨req, completed, texts⟩ := roundTrip
  have present : req.parts[front.length]? = some wrong := by
    have kept : (feed (turn after) before rest [] 0 l).Leads _ _ := feed_frozen frozen
    rw [← whole] at kept
    rw [parse, run] at completed
    cases ended : feed (turn after) [] message.bytes [] 0 (start (.fresh size)) with
    | left outcome =>
      rw [ended] at kept completed
      rw [show outcome = .returned .completed req from completed] at kept
      exact kept
    | inside skip state =>
      rw [ended] at kept completed
      rw [kept.1] at completed
      cases completed
  have stored := (List.forall₂_iff_get.mp texts).2 front.length
    (List.getElem?_eq_some_iff.mp present).1 (by rw [same]; simp)
  have wrongPart : req.parts.get ⟨front.length, (List.getElem?_eq_some_iff.mp present).1⟩ = wrong :=
    (List.getElem?_eq_some_iff.mp present).2
  have rightPart : message.parts.get ⟨front.length, by rw [same]; simp⟩ = part := by
    simp [same]
  rw [wrongPart, rightPart] at stored
  have size := StringView.size_of_text stored.data
  omega

/-- A message whose boundary is made of dashes never completes. -/
theorem dashes_of_roundTrip (good : message.WellFormed) {size : UInt64}
    (announced : boundaryText message.value = message.boundary)
    (quiet : ∀ part ∈ message.parts, Quiet message.boundary (part.data ++ [CR]))
    (roundTrip : RoundTrip after size message) :
    ¬ ∀ byte ∈ message.boundary, byte = chr '-' := by
  intro allDashes
  obtain ⟨l, inside, begun⟩ := feed_messageHead after good size message.body_ne_nil
  obtain ⟨l', inside', ⟨_, state⟩ | ⟨notDashes, _⟩⟩ := (runs_messageBody after good
    begun announced quiet).feed [LF]
  · have incomplete : parse after (.fresh size) message.bytes =
        .returned .inCompleted l'.req := by
      refine parse_of_inside (l := { l' with state := .boundaryMatchRn }) ?_
      rw [FormMessage.bytes, feed_message inside, body_eq_dropLast, feed_append_of_inside inside',
        feed_cons_go]
      · rfl
      · rw [turn]
        simp only [state, if_true]
        rfl
    obtain ⟨req, completed, _⟩ := roundTrip
    rw [incomplete] at completed
    injection completed with wrong
    cases wrong
  · exact notDashes allDashes

/-- Multipart round trip: a message comes back exactly if it is recognisable. -/
theorem roundTrip_iff_recognisable (after : List Byte) (size : UInt64) (message : FormMessage)
    (good : message.WellFormed) : RoundTrip after size message ↔ message.Recognisable := by
  constructor
  · intro roundTrip
    have announced := announced_of_roundTrip good roundTrip
    have quiet := quiet_of_roundTrip good announced roundTrip
    exact ⟨announced, dashes_of_roundTrip good announced quiet roundTrip, quiet⟩
  · exact roundTrip_of_recognisable good size

/-- One part, whose data ends with the boundary. -/
def echoedBoundary : FormMessage where
  line := { method := ascii "POST", uri := ascii "/", version := ascii "1.1" }
  front := []
  spaced := true
  lead := ascii "multipart/form-data; "
  boundary := ascii "xy"
  back := []
  parts := [{ info := [ascii "a: b"], data := ascii "wxy" }]

/-- The same part without the boundary in its data. -/
def plainPart : FormMessage :=
  { echoedBoundary with parts := [{ info := [ascii "a: b"], data := ascii "w" }] }

theorem head_echoedBoundary : echoedBoundary.head.WellFormed where
  line := ⟨by decide, by decide, by decide⟩
  lines := fun header member => by
    rw [List.mem_singleton.mp member]
    exact ⟨by decide, by decide⟩

theorem wellFormed_echoedBoundary : echoedBoundary.WellFormed where
  head := head_echoedBoundary
  method := Or.inl rfl
  multipart := by decide
  last := fun header member => absurd member List.not_mem_nil
  nonempty := by decide
  printable := Token.forall_mem (by decide)
  parts := by decide
  good := fun part member => by
    rw [List.mem_singleton.mp member]
    exact ⟨by decide, List.forall_mem_singleton.mpr ⟨by decide, Token.forall_mem (by decide)⟩,
      by decide⟩

theorem wellFormed_plainPart : plainPart.WellFormed :=
  { wellFormed_echoedBoundary with
    parts := by decide
    good := fun part member => by
      rw [List.mem_singleton.mp member]
      exact ⟨by decide, List.forall_mem_singleton.mpr ⟨by decide, Token.forall_mem (by decide)⟩,
        by decide⟩ }

theorem roundTrip_iff_recognisable_plainPart :
    plainPart.WellFormed ∧ (RoundTrip [] 0 plainPart ↔ plainPart.Recognisable) :=
  ⟨wellFormed_plainPart, roundTrip_iff_recognisable [] 0 plainPart wellFormed_plainPart⟩

/-- A part whose data ends with the boundary does not come back. -/
theorem not_roundTrip_echoedBoundary :
    echoedBoundary.WellFormed ∧ ¬ RoundTrip [] 0 echoedBoundary := by
  refine ⟨wellFormed_echoedBoundary, ?_⟩
  rintro ⟨req, completed, _⟩
  have ended : (parse [] (.fresh 0) echoedBoundary.bytes).verdict = some .completed := by
    rw [completed]
    rfl
  exact absurd ended (by decide)

end Message

end RequestParser

end Sheep
