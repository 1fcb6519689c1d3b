/-
This file decides for which buffers the parser stays inside the buffer. The only
views it can get wrong are the data of parts: their end is found by walking back
from a delimiter over the boundary and the four or six bytes around it, which
may lead to before their start.
-/

import Sheep.RequestTrail

namespace Sheep

open ScanLoop

namespace RequestParser

/-! ### Views inside the buffer -/

/-- Every view a request stores lies in a buffer of this length. -/
structure ViewsIn (length : Nat) (req : Request) : Prop where
  method : req.method.InBuffer length
  uri : req.uri.InBuffer length
  version : req.version.InBuffer length
  content : req.content.InBuffer length
  partBoundary : req.partBoundary.InBuffer length
  headers : ∀ header ∈ req.headers, header.name.InBuffer length ∧ header.value.InBuffer length
  parts : ∀ part ∈ req.parts, part.info.InBuffer length ∧ part.data.InBuffer length

theorem ViewsIn.mono {shorter longer : Nat} {req : Request} (inside : ViewsIn shorter req)
    (le : shorter ≤ longer) : ViewsIn longer req where
  method := inside.method.mono le
  uri := inside.uri.mono le
  version := inside.version.mono le
  content := inside.content.mono le
  partBoundary := inside.partBoundary.mono le
  headers := fun header member =>
    ⟨(inside.headers header member).1.mono le, (inside.headers header member).2.mono le⟩
  parts := fun part member =>
    ⟨(inside.parts part member).1.mono le, (inside.parts part member).2.mono le⟩

theorem viewsIn_iff {length : Nat} {req : Request} :
    ViewsIn length req ↔ ∀ view ∈ req.views, view.InBuffer length := by
  constructor
  · rintro ⟨method, uri, version, content, partBoundary, headers, parts⟩ view member
    simp only [Request.views, List.mem_append, List.mem_cons, List.not_mem_nil, or_false,
      List.mem_flatMap] at member
    rcases member with ((rfl | rfl | rfl | rfl | rfl) | ⟨header, isHeader, rfl | rfl⟩) |
      ⟨part, isPart, rfl | rfl⟩
    · exact method
    · exact uri
    · exact version
    · exact content
    · exact partBoundary
    · exact (headers header isHeader).1
    · exact (headers header isHeader).2
    · exact (parts part isPart).1
    · exact (parts part isPart).2
  · intro inside
    refine ⟨inside _ ?_, inside _ ?_, inside _ ?_, inside _ ?_, inside _ ?_,
      fun header member => ⟨inside _ ?_, inside _ ?_⟩,
      fun part member => ⟨inside _ ?_, inside _ ?_⟩⟩
    all_goals
      simp only [Request.views, List.mem_append, List.mem_cons, List.not_mem_nil, or_false,
        List.mem_flatMap, true_or, or_true]
    · exact Or.inl (Or.inr ⟨header, member, Or.inl rfl⟩)
    · exact Or.inl (Or.inr ⟨header, member, Or.inr rfl⟩)
    · exact Or.inr ⟨part, member, Or.inl rfl⟩
    · exact Or.inr ⟨part, member, Or.inr rfl⟩

/-- The variables of the loop stay inside what has been read. -/
structure Safe (length : Nat) (l : Locals) : Prop where
  low : 0 ≤ l.prevIt
  high : l.prevIt ≤ length
  views : ViewsIn length l.req

/-- A defined outcome whose views lie in the buffer. -/
def SafeOutcome (length : Nat) (outcome : Outcome) : Prop :=
  outcome.verdict ≠ none ∧ ViewsIn length outcome.request

/-- A turn looks and stores inside the buffer, and leaves things so. -/
def SafeTurn (length : Nat) (turned : ParseTurn) : Prop :=
  (∀ note ∈ turned.notes, note.InBuffer length) ∧
    turned.Leads (fun _ next => Safe length next) (SafeOutcome length)

/-- On every view it compares or stores the parser stays inside the buffer, and it never asks for
the last element of an empty vector. -/
def MemorySafe (after : List Byte) (size : UInt64) (buf : List Byte) : Prop :=
  (∀ note, Noted (turn after) buf (start (.fresh size)) note → note.InBuffer buf.length) ∧
    SafeOutcome buf.length (parse after (.fresh size) buf)

/-! ### Delimiters too close to the start of the data -/

/-- The length the parser gives to the data of a cut stretch. -/
def cutLength (boundary text : List Byte) : Int :=
  if boundary <:+ text then text.length - boundary.length - 4
  else text.length - boundary.length - 6

/-- The buffer holds a multipart body in which a delimiter comes so early after the start of a
part's data that the data would end before it starts. -/
def Underrun (buf : List Byte) : Prop :=
  ∃ head boundary front text rest, MultipartHead head boundary ∧ boundary ≠ [] ∧
    DataStart boundary front ∧ Cut boundary text ∧ cutLength boundary text < 0 ∧
    buf = head.bytes ++ front ++ text ++ CR :: rest

variable {after before ahead : List Byte} {curChar : Byte} {l : Locals} {size : UInt64}

/-! ### Safe turns -/

theorem safeTurn_leave {length : Nat} {req : Request} {notes : List StringView}
    {verdict : RequestParseResult} (noted : ∀ note ∈ notes, note.InBuffer length)
    (views : ViewsIn length req) : SafeTurn length (.leave (.returned verdict req) notes) :=
  ⟨noted, by simp [Outcome.verdict], views⟩

theorem safeTurn_go {length : Nat} {next : Locals} {notes : List StringView}
    (noted : ∀ note ∈ notes, note.InBuffer length) (safe : Safe length next) :
    SafeTurn length (.go next notes) := ⟨noted, safe⟩

/-- The states whose turns need the trail. -/
def State.WalksBack (state : State) : Prop :=
  state = .headerValueStart ∨ state = .partInfoRn ∨ state = .partBodyStart

/-- In all other states a turn looks at and stores views from `prev_it` to `it`, or the byte at
`it`. -/
theorem turn_safe_of_not_walksBack (safe : Safe before.length l) (forward : ¬ l.state.WalksBack) :
    SafeTurn (before.length + 1) (turn after before curChar ahead l) := by
  obtain ⟨state, prevIt, remaining, req⟩ := l
  obtain ⟨low, high, views⟩ := safe
  simp only at low high views
  have grown := views.mono (Nat.le_succ before.length)
  have none : ∀ note ∈ ([] : List StringView), note.InBuffer (before.length + 1) :=
    fun note member => absurd member List.not_mem_nil
  have view : (StringView.range prevIt before.length).InBuffer (before.length + 1) :=
    ⟨low, high, by omega⟩
  have one := List.forall_mem_singleton.mpr view
  have method := List.forall_mem_singleton.mpr grown.method
  have stays (next : State) (remaining' : UInt64) :
      Safe (before.length + 1) ⟨next, prevIt, remaining', req⟩ := ⟨low, by simp only; omega, grown⟩
  have moves (next : State) (remaining' : UInt64) :
      Safe (before.length + 1) ⟨next, before.length, remaining', req⟩ :=
    ⟨by simp only; omega, by simp only; omega, grown⟩
  have stores (next : State) (req' : Request) (views' : ViewsIn (before.length + 1) req') :
      Safe (before.length + 1) ⟨next, prevIt, remaining, req'⟩ := ⟨low, by simp only; omega, views'⟩
  cases state
  case headerValueStart => exact absurd (Or.inl rfl) forward
  case partInfoRn => exact absurd (Or.inr (Or.inl rfl)) forward
  case partBodyStart => exact absurd (Or.inr (Or.inr rfl)) forward
  case headerRnrn =>
    have here : (StringView.range before.length (before.length + 1)).InBuffer (before.length + 1) :=
      ⟨by omega, by omega, by omega⟩
    simp only [turn]
    repeat' split
    · exact safeTurn_leave
        (List.forall_mem_cons.mpr ⟨grown.method, List.forall_mem_singleton.mpr here⟩)
        { grown with content := here }
    all_goals first | exact safeTurn_leave method grown | exact safeTurn_go method (moves _ _)
  case postDataStart =>
    have content : (StringView.range prevIt (before.length + 1)).InBuffer (before.length + 1) :=
      ⟨low, by omega, by omega⟩
    simp only [turn]
    split
    · exact safeTurn_leave (List.forall_mem_singleton.mpr content) { grown with content := content }
    · exact safeTurn_go none (stays _ _)
  case headerStart =>
    simp only [turn]
    split
    · refine safeTurn_go one (stores _ _ { grown with headers := fun header member => ?_ })
      rcases List.mem_append.mp member with old | new
      · exact grown.headers header old
      · rw [List.mem_singleton.mp new]
        exact ⟨view, trivial⟩
    · split
      · exact safeTurn_leave none grown
      · exact safeTurn_go none (stays _ _)
  case boundaryMatchStart =>
    have both := List.forall_mem_cons.mpr ⟨view, List.forall_mem_singleton.mpr grown.partBoundary⟩
    simp only [turn]
    repeat' split
    · exact safeTurn_go both (stays _ _)
    · exact safeTurn_leave both grown
    · exact safeTurn_leave none grown
    · exact safeTurn_go none (stays _ _)
  all_goals
    simp only [turn]
    repeat' split
    all_goals first
      | exact safeTurn_leave none grown
      | exact safeTurn_leave one grown
      | exact safeTurn_go none (stays _ _)
      | exact safeTurn_go none (moves _ _)
      | exact safeTurn_go one (stays _ _)
      | exact safeTurn_go one (stores _ _ { grown with method := view })
      | exact safeTurn_go one (stores _ _ { grown with uri := view })
      | exact safeTurn_go one (stores _ _ { grown with version := view })

/-- Ending a header value stores it, and perhaps the boundary in it. -/
theorem finishHeaderValue_safe {memory left value : List Byte} {headers : List Request.Header}
    {header : Request.Header} (safe : Safe before.length l) (split : before = left ++ value)
    (starts : l.prevIt = left.length) (stored : l.req.headers = headers ++ [header]) :
    SafeTurn (before.length + 1) (finishHeaderValue memory before before.length l) := by
  have grown := safe.views.mono (Nat.le_succ before.length)
  have view : (StringView.range l.prevIt before.length).InBuffer (before.length + 1) :=
    ⟨safe.low, safe.high, by omega⟩
  have text : (StringView.range l.prevIt before.length).text before = some value :=
    StringView.text_range left value [] (by rw [split, List.append_nil]) starts (by rw [split])
  have last : header ∈ l.req.headers := by
    rw [stored]
    exact List.mem_append_right _ List.mem_cons_self
  have name := (grown.headers header last).1
  have noted := List.forall_mem_cons.mpr ⟨view, List.forall_mem_singleton.mpr name⟩
  have views : ViewsIn (before.length + 1) { l.req with
      headers := headers ++ [{ header with value := .range l.prevIt before.length }] } := by
    refine { grown with headers := fun other member => ?_ }
    rcases List.mem_append.mp member with old | new
    · exact grown.headers other (by rw [stored]; exact List.mem_append_left _ old)
    · rw [List.mem_singleton.mp new]
      exact ⟨name, view⟩
  have low := safe.low
  have high : l.prevIt ≤ ((before.length + 1 : Nat) : Int) := by
    have inside := safe.high
    omega
  unfold finishHeaderValue
  simp only [Request.setLastValue, stored, List.getLast?_concat, Option.map_some,
    List.dropLast_concat, text, Option.getD_some]
  split
  · rename_i typed
    have multipart : isMultipartInHeaderValue value = true := (Bool.and_eq_true _ _ ▸ typed).2
    have boundary : (findBoundary value l.prevIt before.length).InBuffer (before.length + 1) := by
      have found := text_findBoundary left value [] multipart
      rw [List.append_nil, ← split, ← starts] at found
      exact (StringView.inBuffer_of_text found).mono (Nat.le_succ _)
    refine safeTurn_go ?_ ⟨low, high, { views with partBoundary := boundary }⟩
    exact List.forall_mem_cons.mpr ⟨view, List.forall_mem_cons.mpr ⟨name,
      List.forall_mem_singleton.mpr boundary⟩⟩
  · split
    · exact safeTurn_go noted ⟨low, high, { views with }⟩
    · exact safeTurn_go noted ⟨low, high, views⟩

/-- A view of a part's data that does not end before it starts. -/
theorem viewsIn_setData {length : Nat} {req : Request} {parts : List Request.Part}
    {part : Request.Part} {data : StringView} (views : ViewsIn length req)
    (stored : req.parts = parts ++ [part]) (inside : data.InBuffer length) :
    ViewsIn length { req with parts := parts ++ [{ part with data }] } := by
  refine { views with parts := fun other member => ?_ }
  rcases List.mem_append.mp member with old | new
  · exact views.parts other (by rw [stored]; exact List.mem_append_left _ old)
  · rw [List.mem_singleton.mp new]
    have last : part ∈ req.parts := by
      rw [stored]
      exact List.mem_append_right _ List.mem_cons_self
    exact ⟨(views.parts part last).1, inside⟩

/-- A carriage return inside a part's body is safe unless the walk back leads to before the
data. -/
theorem matchBoundaryBackwards_safe (pre : List Byte) {boundary text : List Byte}
    (safe : Safe before.length l)
    (split : before = pre ++ LF :: text) (starts : l.prevIt = (pre ++ [LF]).length)
    (denotes : l.req.partBoundary.text before = some boundary)
    (within : boundary.length ≤ pre.length) (noLF : LF ∉ boundary) (parts : l.req.parts ≠ [])
    (enough : Hit boundary text → 0 ≤ cutLength boundary text) :
    SafeTurn (before.length + 1) (matchBoundaryBackwards before before.length l) := by
  have grown := safe.views.mono (Nat.le_succ before.length)
  have low := safe.low
  have high : l.prevIt ≤ ((before.length + 1 : Nat) : Int) := by
    have inside := safe.high
    omega
  obtain ⟨stored, part, sameParts⟩ : ∃ stored part, l.req.parts = stored ++ [part] :=
    (List.eq_nil_or_concat' l.req.parts).resolve_left parts
  have length : before.length = pre.length + text.length + 1 := by
    rw [split, List.length_append, List.length_cons]
    omega
  have start : (l.prevIt : Int) = pre.length + 1 := by
    rw [starts, List.length_append, List.length_singleton]
    omega
  subst split
  by_cases ends : boundary <:+ text
  · have room := enough (Or.inl ends)
    rw [cutLength, if_pos ends] at room
    have data : (StringView.range l.prevIt
        ((pre ++ LF :: text).length - boundary.length - 4)).InBuffer
        ((pre ++ LF :: text).length + 1) := ⟨low, by omega, by omega⟩
    rw [matchBoundaryBackwards_boundary denotes within noLF sameParts ends]
    refine safeTurn_go ?_ ⟨low, high, viewsIn_setData grown sameParts data⟩
    exact List.forall_mem_cons.mpr ⟨⟨by omega, by omega, by omega⟩,
      List.forall_mem_cons.mpr ⟨grown.partBoundary, List.forall_mem_singleton.mpr data⟩⟩
  · by_cases dashed : boundary ++ ascii "--" <:+ text
    · have room := enough (Or.inr dashed)
      rw [cutLength, if_neg ends] at room
      have data : (StringView.range l.prevIt
          ((pre ++ LF :: text).length - boundary.length - 6)).InBuffer
          ((pre ++ LF :: text).length + 1) := ⟨low, by omega, by omega⟩
      have two := dashed.length_le
      rw [List.length_append, show (ascii "--").length = 2 from rfl] at two
      rw [matchBoundaryBackwards_last denotes within noLF sameParts ends dashed]
      refine safeTurn_go ?_ ⟨low, high, viewsIn_setData grown sameParts data⟩
      exact List.forall_mem_cons.mpr ⟨⟨by omega, by omega, by omega⟩,
        List.forall_mem_cons.mpr ⟨⟨by omega, by omega, by omega⟩,
          List.forall_mem_cons.mpr ⟨grown.partBoundary, List.forall_mem_singleton.mpr data⟩⟩⟩
    · obtain ⟨notes, turned, noted⟩ := matchBoundaryBackwards_miss (l := l) denotes within noLF
        fun hit => hit.elim ends dashed
      rw [turned]
      exact safeTurn_go (fun note member => (noted note member).mono (Nat.le_succ _))
        ⟨low, high, grown⟩

/-! ### Safe runs -/

theorem headerTrail_of_trail (trail : Trail size before l) (state : l.state = .headerValueStart) :
    HeaderTrail before l := by
  rcases trail with ⟨inLine, _⟩ | trail | ⟨fixed, _⟩ | ⟨_, _, _, _, _, _, trail⟩
  · simp [State.InLine, state] at inLine
  · exact trail
  · rw [state] at fixed
    cases fixed
  · rw [BodyTrail, state] at trail
    exact absurd trail id

theorem multipartTrail_of_trail (trail : Trail size before l)
    (state : l.state = .partInfoRn ∨ l.state = .partBodyStart) : MultipartTrail before l := by
  rcases trail with ⟨inLine, _⟩ | trail | ⟨fixed, _⟩ | trail
  · rcases state with state | state <;> simp [State.InLine, state] at inLine
  · rcases state with state | state <;>
      · rw [HeaderTrail, state] at trail
        exact absurd trail id
  · rcases state with state | state <;>
      · rw [state] at fixed
        cases fixed
  · exact trail

theorem length_infoBytes {lines : List (List Byte)} (good : GoodInfo lines) :
    2 ≤ (infoBytes lines).length := by
  obtain ⟨first, rest, rfl⟩ := List.exists_cons_of_ne_nil good.1
  rw [infoBytes, List.flatMap_cons]
  simp only [List.length_append, List.length_cons]
  omega

/-- No delimiter that ends here comes too early. -/
def NoUnderrunAt (before : List Byte) : Prop :=
  ∀ head boundary front text, MultipartHead head boundary → boundary ≠ [] →
    DataStart boundary front → Cut boundary text → before = head.bytes ++ front ++ text →
    0 ≤ cutLength boundary text

/-- Every turn is safe, but for a carriage return after a delimiter that comes too early. -/
theorem turn_safe (after : List Byte) (curChar : Byte) (ahead : List Byte)
    (trail : Trail size before l)
    (safe : Safe before.length l) (enough : curChar = CR → NoUnderrunAt before) :
    SafeTurn (before.length + 1) (turn after before curChar ahead l) := by
  have grown := safe.views.mono (Nat.le_succ before.length)
  have low := safe.low
  have high : l.prevIt ≤ ((before.length + 1 : Nat) : Int) := by
    have inside := safe.high
    omega
  have none : ∀ note ∈ ([] : List StringView), note.InBuffer (before.length + 1) :=
    fun note member => absurd member List.not_mem_nil
  by_cases walks : l.state.WalksBack
  · rcases walks with state | state | state
    · have inHeader := headerTrail_of_trail trail state
      rw [HeaderTrail, state] at inHeader
      obtain ⟨line, lines, start, header, named, _, split, starts⟩ := inHeader
      obtain ⟨req, _, same⟩ := named.stored
      rw [turn]
      simp only [state]
      by_cases carriage : curChar = CR
      · rw [if_pos carriage]
        exact finishHeaderValue_safe safe split starts (by rw [same])
      · rw [if_neg carriage]
        split
        · exact safeTurn_leave none grown
        · exact safeTurn_go none ⟨low, high, grown⟩
    · obtain ⟨head, boundary, body, _, split, _, inBody⟩ :=
        multipartTrail_of_trail trail (Or.inl state)
      rw [BodyTrail, state] at inBody
      obtain ⟨front, lines, _, _, good, sameBody, starts⟩ := inBody
      have two := length_infoBytes good
      have length : before.length =
          head.bytes.length + (front ++ crlf).length + (infoBytes lines).length := by
        rw [split, sameBody]
        simp only [List.length_append]
        omega
      have info : (StringView.range l.prevIt (before.length - 2)).InBuffer (before.length + 1) :=
        ⟨low, by omega, by omega⟩
      rw [turn]
      simp only [state]
      by_cases carriage : curChar = CR
      · rw [if_pos carriage]
        refine safeTurn_go (List.forall_mem_singleton.mpr info)
          ⟨low, high, { grown with parts := fun part member => ?_ }⟩
        rcases List.mem_append.mp member with old | new
        · exact grown.parts part old
        · rw [List.mem_singleton.mp new]
          exact ⟨info, trivial⟩
      · rw [if_neg carriage]
        split
        · exact safeTurn_go none ⟨low, high, grown⟩
        · exact safeTurn_leave none grown
    · obtain ⟨head, boundary, body, multipart, split, read, inBody⟩ :=
        multipartTrail_of_trail trail (Or.inr state)
      rw [BodyTrail, state] at inBody
      obtain ⟨front, text, token, starts, _, quiet, sameBody, prevIt, parts⟩ := inBody
      rw [turn]
      simp only [state]
      by_cases carriage : curChar = CR
      · rw [if_pos carriage]
        have announced : l.req.partBoundary.text head.bytes = some boundary := by
          have stored := read.boundary
          rw [multipart.announced] at stored
          exact stored
        have denotes := StringView.text_append announced body
        rw [← split] at denotes
        have inLines := length_le_of_boundaryOf multipart.announced
        have room := fun hit => enough carriage head boundary front text multipart token.ne_nil
          starts ⟨quiet, hit⟩ (by rw [split, sameBody, List.append_assoc])
        obtain ⟨delimited, lines, _, _, sameFront⟩ := starts
        refine matchBoundaryBackwards_safe (head.bytes ++ (delimited ++ crlf ++
          infoBytes lines ++ [CR])) safe ?_ ?_ denotes ?_ (noLF_of_plain token) parts room
        · rw [split, sameBody, sameFront]
          simp
        · rw [prevIt, sameFront]
          simp only [List.length_append, List.length_cons, List.length_nil]
          omega
        · rw [RequestHead.bytes]
          simp only [List.length_append]
          omega
      · rw [if_neg carriage]
        exact safeTurn_go none ⟨low, high, grown⟩
  · exact turn_safe_of_not_walksBack safe walks

theorem safe_start (size : UInt64) : Safe 0 (start (.fresh size)) where
  low := le_refl _
  high := le_refl _
  views := ⟨trivial, trivial, trivial, trivial, trivial,
    fun _ member => absurd member List.not_mem_nil, fun _ member => absurd member List.not_mem_nil⟩

theorem SafeOutcome.mono {shorter longer : Nat} {outcome : Outcome}
    (safe : SafeOutcome shorter outcome) (le : shorter ≤ longer) : SafeOutcome longer outcome :=
  ⟨safe.1, safe.2.mono le⟩

theorem noUnderrunAt_of_not_underrun {buf rest : List Byte} (fine : ¬ Underrun buf)
    (split : before ++ CR :: rest = buf) : NoUnderrunAt before := by
  intro head boundary front text multipart nonempty starts cut same
  by_contra negative
  exact fine ⟨head, boundary, front, text, rest, multipart, nonempty, starts, cut, by omega,
    by rw [← split, same]⟩

/-- A run over a buffer without an underrun is safe everywhere. -/
theorem feed_safe (after : List Byte) (size : UInt64) {buf read : List Byte}
    (fine : ¬ Underrun buf) (split : read ++ ahead = buf) :
    (feed (turn after) [] read ahead 0 (start (.fresh size))).Leads
      (fun skip l => skip = 0 ∧ Trail size read l ∧ Safe read.length l)
      (SafeOutcome buf.length) := by
  refine feed_invariant_of_no_jump (fun before l => Trail size before l ∧ Safe before.length l)
    ⟨trail_start size, safe_start size⟩ ?_
  rintro before symbol later l whole ⟨trail, safe⟩
  rw [List.nil_append, split] at whole
  have safely := turn_safe after symbol later trail safe
    fun carriage => noUnderrunAt_of_not_underrun fine (by rw [← carriage]; exact whole)
  refine ((turn_trail trail).and safely.2).mono ?_ ?_
  · rintro skip next ⟨⟨zero, trail'⟩, safe'⟩
    exact ⟨zero, trail', by rw [List.length_append]; exact safe'⟩
  · rintro outcome ⟨_, safe'⟩
    refine safe'.mono ?_
    rw [← whole, List.length_append, List.length_cons]
    omega

theorem memorySafe_of_not_underrun {buf : List Byte} (fine : ¬ Underrun buf) :
    MemorySafe after size buf := by
  constructor
  · rintro note ⟨before, symbol, later, l, split, inside, noted⟩
    have reached := feed_safe after size fine split.symm
    rw [inside] at reached
    obtain ⟨_, trail, safe⟩ := reached
    have safely := turn_safe after symbol later trail safe
      fun carriage => noUnderrunAt_of_not_underrun fine (by rw [← carriage]; exact split.symm)
    refine (safely.1 note noted).mono ?_
    rw [split, List.length_append, List.length_cons]
    omega
  · have ends := feed_safe after size fine (List.append_nil buf)
    rw [parse, run]
    cases ended : feed (turn after) [] buf [] 0 (start (.fresh size)) with
    | left outcome =>
      rw [ended] at ends
      exact ends
    | inside skip l =>
      rw [ended] at ends
      obtain ⟨rfl, _, safe⟩ := ends
      exact ⟨by simp [Outcome.verdict], safe.views⟩

/-! ### Unsafe runs -/

/-- The boundary a head announces is plain text. -/
theorem token_of_multipartHead {head : RequestHead} {boundary : List Byte}
    (multipart : MultipartHead head boundary) (nonempty : boundary ≠ []) :
    Token Plain Plain boundary := by
  obtain ⟨header, member, picked⟩ :=
    List.mem_filterMap.mp (List.mem_of_getLast? multipart.announced)
  have plain : ∀ byte ∈ header.value, Plain byte := by
    have value := (multipart.good.lines header member).value
    cases shape : header.value with
    | nil => exact fun byte member => absurd member List.not_mem_nil
    | cons first rest =>
      rw [shape] at value
      exact List.forall_mem_cons.mpr ⟨value.1.1, value.2⟩
  unfold pickBoundary at picked
  split at picked
  · injection picked with same
    refine plain_of_token nonempty fun byte inside => plain byte ?_
    rw [← same] at inside
    exact List.mem_of_mem_drop inside
  · cases picked

/-- The line end of a delimiter has been read, and the boundary is stored. -/
structure DelimiterRead (boundary : List Byte) (before : List Byte) (l : Locals) : Prop where
  state : l.state = .boundaryMatchRn
  denotes : l.req.partBoundary.text before = some boundary

/-- The info lines of a part and the bytes of its body up to a carriage return. -/
theorem runs_upToCut {boundary text : List Byte} {lines : List (List Byte)}
    (read : DelimiterRead boundary before l) (within : boundary.length ≤ before.length)
    (noLF : LF ∉ boundary) (nonempty : text ≠ []) (good : GoodInfo lines)
    (quiet : Quiet boundary text) :
    Runs (turn after) before (infoBytes lines ++ crlf ++ text) l fun _ l' =>
      l'.state = .partBodyStart ∧ l'.prevIt = (before ++ infoBytes lines ++ crlf).length ∧
      l'.req.partBoundary = l.req.partBoundary ∧
      ∃ stored part, l'.req.parts = stored ++ [part] := by
  have info : infoBytes lines ++ crlf = List.intercalate crlf lines ++ (crlf ++ crlf) := by
    rw [infoBytes, flatMap_lines lines good.1, List.append_assoc]
  rw [info]
  refine Runs.append (runs_info ⟨lines, []⟩ good.1 good.2 read.state) ?_
  rintro l' rfl
  have shift : before ++ (List.intercalate crlf lines ++ (crlf ++ crlf)) =
      (before ++ List.intercalate crlf lines ++ crlf ++ [CR]) ++ [LF] := by simp
  rw [FormPart.infoText, shift]
  refine (runs_body text nonempty rfl ?_ ?_ noLF quiet).mono ?_
  · have grown := StringView.text_append read.denotes (List.intercalate crlf lines ++ crlf ++ [CR])
    simpa using grown
  · simp only [List.length_append]
    omega
  · rintro l'' rfl
    refine ⟨rfl, ?_, rfl, _, _, rfl⟩
    show ((before ++ List.intercalate crlf lines ++ crlf ++ [CR] ++ [LF]).length : Int) = _
    rw [← shift, ← info, List.append_assoc]

/-- A delimited body goes through up to the line end of its last delimiter. -/
theorem runs_delimited {boundary method front : List Byte} (state : l.state = .headerRnrn)
    (stored : l.req.method.text before = some method) (hasBody : HasBody method)
    (multipart : l.req.isMultipart = true) (noParts : l.req.parts = [])
    (token : Token Plain Plain boundary)
    (denotes : l.req.partBoundary.text before = some boundary)
    (within : boundary.length ≤ before.length) (delimited : Delimited boundary front) :
    Runs (turn after) before (front ++ crlf) l fun before' l' =>
      DelimiterRead boundary before' l' := by
  induction delimited with
  | first =>
    refine (runs_opening state stored hasBody multipart noParts token denotes).mono ?_
    rintro l' ⟨state', _, _, same, _⟩
    refine ⟨state', ?_⟩
    rw [same]
    exact StringView.text_append denotes _
  | @next front text lines delimited good cut ends inductionHypothesis =>
    have shape : front ++ crlf ++ infoBytes lines ++ crlf ++ text ++ crlf =
        (front ++ crlf) ++ ((infoBytes lines ++ crlf ++ text) ++ crlf) := by simp
    rw [shape]
    refine Runs.append inductionHypothesis fun l' read => ?_
    have noLF := noLF_of_plain token
    have nonempty : text ≠ [] := by
      rintro rfl
      exact not_hit_nil token.ne_nil cut.2
    refine Runs.append (runs_upToCut read (by rw [List.length_append]; omega) noLF nonempty good
      cut.1) ?_
    rintro l'' ⟨state', _, same, stored', part, sameParts⟩
    have split : before ++ (front ++ crlf) ++ (infoBytes lines ++ crlf ++ text) =
        (before ++ (front ++ crlf) ++ infoBytes lines ++ [CR]) ++ LF :: text := by simp
    rw [split]
    have denotes' : l''.req.partBoundary.text
        ((before ++ (front ++ crlf) ++ infoBytes lines ++ [CR]) ++ LF :: text) = some boundary := by
      rw [same]
      have grown := StringView.text_append read.denotes (infoBytes lines ++ [CR] ++ LF :: text)
      simpa using grown
    refine runs_cons fun ahead => ?_
    rw [turn]
    simp only [state', if_true]
    rw [matchBoundaryBackwards_boundary denotes' (by simp only [List.length_append]; omega) noLF
      sameParts ends, onward_go]
    refine runs_cons fun ahead => ?_
    simp only [turn, if_true, onward_go]
    refine runs_nil ⟨rfl, ?_⟩
    exact StringView.text_append (StringView.text_append denotes' [CR]) [LF]

/-- At an underrun the parser stores a view that ends before it starts. -/
theorem not_memorySafe_of_underrun {buf : List Byte} (underrun : Underrun buf) :
    ¬ MemorySafe after size buf := by
  rintro ⟨noted, _⟩
  obtain ⟨head, boundary, front, text, rest, multipart, nonempty, starts, cut, negative, split⟩ :=
    underrun
  obtain ⟨delimited, lines, isDelimited, good, rfl⟩ := starts
  have token := token_of_multipartHead multipart nonempty
  have noLF := noLF_of_plain token
  have linesNonempty : head.lines ≠ [] := by
    intro empty
    have announced := multipart.announced
    rw [empty] at announced
    cases announced
  have textNonempty : text ≠ [] := by
    rintro rfl
    exact not_hit_nil nonempty cut.2
  have within : boundary.length ≤ head.bytes.length := by
    have inLines := length_le_of_boundaryOf multipart.announced
    rw [RequestHead.bytes]
    simp only [List.length_append]
    omega
  have shape : buf = head.bytes ++ ((delimited ++ crlf) ++ (infoBytes lines ++ crlf ++ text) ++
      CR :: rest) := by
    rw [split]
    simp
  obtain ⟨l, inside, state, read⟩ := feed_head after head multipart.good linesNonempty size
    (by simp : (delimited ++ crlf) ++ (infoBytes lines ++ crlf ++ text) ++ CR :: rest ≠ [])
  have denotes : l.req.partBoundary.text head.bytes = some boundary := by
    have stored := read.boundary
    rw [multipart.announced] at stored
    exact stored
  have several : l.req.isMultipart = true := by rw [read.multipart, multipart.announced]; rfl
  have body : Runs (turn after) head.bytes
      ((delimited ++ crlf) ++ (infoBytes lines ++ crlf ++ text)) l
      fun before' l' => l'.state = .partBodyStart ∧
        l'.prevIt = (head.bytes ++ (delimited ++ crlf) ++ infoBytes lines ++ crlf).length ∧
        l'.req.partBoundary.text before' = some boundary ∧
        ∃ stored part, l'.req.parts = stored ++ [part] := by
    refine Runs.append (runs_delimited state read.line.method multipart.method several read.parts
      token denotes within isDelimited) fun l' reached => ?_
    refine (runs_upToCut reached (by rw [List.length_append]; omega) noLF textNonempty good
      cut.1).mono ?_
    rintro l'' ⟨state', prevIt, same, stored⟩
    exact ⟨state', prevIt, by rw [same]; exact StringView.text_append reached.denotes _, stored⟩
  obtain ⟨l', inside', state', prevIt, denotes', stored, part, sameParts⟩ := body.feed (CR :: rest)
  have cutAt : head.bytes ++ ((delimited ++ crlf) ++ (infoBytes lines ++ crlf ++ text)) =
      (head.bytes ++ (delimited ++ crlf) ++ infoBytes lines ++ [CR]) ++ LF :: text := by simp
  rw [cutAt] at denotes'
  have room : boundary.length ≤
      (head.bytes ++ (delimited ++ crlf) ++ infoBytes lines ++ [CR]).length := by
    simp only [List.length_append]
    omega
  have before : ((head.bytes ++ (delimited ++ crlf) ++ infoBytes lines ++ crlf).length : Int) =
      (head.bytes ++ (delimited ++ crlf) ++ infoBytes lines ++ [CR] ++ LF :: text).length -
        text.length := by
    simp
    omega
  -- the views noted at the carriage return after the delimiter
  have seen (note : StringView) (member : note ∈ (matchBoundaryBackwards
      ((head.bytes ++ (delimited ++ crlf) ++ infoBytes lines ++ [CR]) ++ LF :: text)
      ((head.bytes ++ (delimited ++ crlf) ++ infoBytes lines ++ [CR]) ++ LF :: text).length
      l').notes) : note.InBuffer buf.length := by
    refine noted note ⟨head.bytes ++ ((delimited ++ crlf) ++ (infoBytes lines ++ crlf ++ text)), CR,
      rest, l', by rw [shape]; simp, ?_, ?_⟩
    · rw [feed_append_of_inside inside,
        List.nil_append, inside']
    · rw [cutAt, turn]
      simp only [state', if_true]
      exact member
  unfold cutLength at negative
  by_cases ends : boundary <:+ text
  · rw [if_pos ends] at negative
    rw [matchBoundaryBackwards_boundary denotes' room noLF sameParts ends] at seen
    obtain ⟨_, ordered, _⟩ := seen _ (List.mem_cons_of_mem _ (List.mem_cons_of_mem _
      List.mem_cons_self))
    omega
  · rw [if_neg ends] at negative
    rw [matchBoundaryBackwards_last denotes' room noLF sameParts ends
      (cut.2.resolve_left ends)] at seen
    obtain ⟨_, ordered, _⟩ := seen _ (List.mem_cons_of_mem _ (List.mem_cons_of_mem _
      (List.mem_cons_of_mem _ List.mem_cons_self)))
    omega

/-- Memory safety: the parser stays inside the buffer exactly if no delimiter comes too early. -/
theorem memorySafe_iff_not_underrun (after : List Byte) (size : UInt64) (buf : List Byte) :
    MemorySafe after size buf ↔ ¬ Underrun buf :=
  ⟨fun safe underrun => not_memorySafe_of_underrun underrun safe, memorySafe_of_not_underrun⟩

/-- A part whose data is the boundary, two bytes long: the parser takes its data to end four bytes
before it starts. -/
def tightDelimiter : List Byte :=
  ascii "POST / HTTP/1\r\nContent-Type: multipart/form-data; boundary=xy\r\n\r\n" ++
    ascii "--xy\r\na\r\n\r\nxy\r"

theorem not_memorySafe_tightDelimiter : ¬ MemorySafe [] 0 tightDelimiter := by
  rintro ⟨_, _, views⟩
  have stored := viewsIn_iff.mp views
  revert stored
  decide

end RequestParser

end Sheep
