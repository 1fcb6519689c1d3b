/-
This file describes what a message object brings into a parse. The parsers set
fields and append to lists and reset nothing, so two objects that receive the
same message end up with the same additions to what they held. The verdict
depends on the object only through the flags and the boundary of an earlier
message, and only behind a head that does not set them itself. A third run that
reads along with a fresh object tells what head has been read.
-/

import Sheep.RequestLength
import Sheep.ResponseTrail

namespace Sheep

open ScanLoop

namespace RequestParser

/-! ### Requests that are used again -/

/-- What one message does to two requests: it appends the same headers and parts, and it sets the
same content, size and boundary or leaves them alone. -/
structure Grown (old old' req req' : Request) : Prop where
  headers : ∃ added, req.headers = old.headers ++ added ∧ req'.headers = old'.headers ++ added
  parts : ∃ added, req.parts = old.parts ++ added ∧ req'.parts = old'.parts ++ added
  content : req.content = old.content ∧ req'.content = old'.content ∨ req.content = req'.content
  contentSize : req.contentSize = old.contentSize ∧ req'.contentSize = old'.contentSize ∨
    req.contentSize = req'.contentSize
  boundary : req.isMultipart = old.isMultipart ∧ req'.isMultipart = old'.isMultipart ∧
      req.partBoundary = old.partBoundary ∧ req'.partBoundary = old'.partBoundary ∨
    req.isMultipart = req'.isMultipart ∧ req.partBoundary = req'.partBoundary

/-- Two requests hold the same message, besides what they held before. -/
structure SameMessage (old old' req req' : Request) : Prop where
  method : req.method = req'.method
  uri : req.uri = req'.uri
  version : req.version = req'.version
  grown : Grown old old' req req'

/-- The verdicts are the same, and so are the messages where they are complete. -/
def SameOutcome (old old' : Request) (outcome outcome' : Outcome) : Prop :=
  outcome.verdict = outcome'.verdict ∧ (outcome.verdict = some .completed →
    SameMessage old old' outcome.request outcome'.request)

/-- The method has not been stored yet. -/
def State.beforeMethod : State → Bool
  | .methodUnstart | .methodStart => true
  | _ => false

/-- The uri has not been stored yet. -/
def State.beforeUri : State → Bool
  | .methodUnstart | .methodStart | .methodEnd | .uriStart => true
  | _ => false

/-- The version has not been stored yet. -/
def State.beforeVersion : State → Bool
  | .methodUnstart | .methodStart | .methodEnd | .uriStart | .uriEnd | .httpStart | .httpEnd
  | .versionStart => true
  | _ => false

/-- The name of a header has been stored and its value has not. -/
def State.inValue : State → Bool
  | .headerNameEnd | .headerNameValueSpace | .headerValueStart => true
  | _ => false

/-- The info of a part has been stored and its data has not. -/
def State.inData : State → Bool
  | .partInfoRnr | .partInfoRnrn | .partBodyStart => true
  | _ => false

/-- In a multipart body. -/
def State.inMultipart : State → Bool
  | .multipartDataStart | .multipartDataStart' | .boundaryMatchStart | .boundaryMatchR
  | .boundaryMatchRn | .partInfoStart | .partInfoR | .partInfoRn | .partInfoRnr | .partInfoRnrn
  | .partBodyStart => true
  | _ => false

/-- In a body. -/
def State.inBody : State → Bool
  | .postDataStart | .lastBoundaryMatch => true
  | state => state.inMultipart

/-- Two requests in the middle of the same message. -/
structure Kept (old old' : Request) (state : State) (req req' : Request) : Prop where
  method : state.beforeMethod = false → req.method = req'.method
  uri : state.beforeUri = false → req.uri = req'.uri
  version : state.beforeVersion = false → req.version = req'.version
  headers : ∃ added, req.headers = old.headers ++ added ∧ req'.headers = old'.headers ++ added ∧
    (state.inValue = true → added ≠ [])
  parts : ∃ added, req.parts = old.parts ++ added ∧ req'.parts = old'.parts ++ added ∧
    (state.inData = true → added ≠ [])
  content : req.content = old.content ∧ req'.content = old'.content ∨ req.content = req'.content
  contentSize : req.contentSize = old.contentSize ∧ req'.contentSize = old'.contentSize ∨
    req.contentSize = req'.contentSize
  boundary : req.isMultipart = old.isMultipart ∧ req'.isMultipart = old'.isMultipart ∧
      req.partBoundary = old.partBoundary ∧ req'.partBoundary = old'.partBoundary ∨
    req.isMultipart = req'.isMultipart ∧ req.partBoundary = req'.partBoundary
  delimiter : state.inMultipart = true → req.partBoundary = req'.partBoundary

/-- The loops stand at the same place, with their requests in the middle of the same message. -/
def Alike (old old' : Request) (l l' : Locals) : Prop :=
  ∃ req', l' = { l with req := req' } ∧ Kept old old' l.state l.req req'

/-- Until the body, a fresh request reads along. -/
def Guided (old old' : Request) (before : List Byte) (skip : Nat) (l l' : Locals) : Prop :=
  l.state.inBody = true ∨ ∃ guide, (skip = 0 ∧ Trail 0 before guide) ∧
    Alike (.fresh 0) old guide l ∧ Alike (.fresh 0) old' guide l'

/-- The body of the buffer is read as the flag that the object holds says: its method has one and
its header lines announce no boundary. -/
def ReadsFlag (buf : List Byte) : Prop :=
  ∃ (head : RequestHead) (rest : List Byte), head.WellFormed ∧ head.lines ≠ [] ∧
    HasBody head.line.method ∧ boundaryOf head.lines = none ∧ rest ≠ [] ∧ buf = head.bytes ++ rest

/-- The requests agree in the flag of a multipart message, and in the boundary where it is set. -/
def SameFlag (req req' : Request) : Prop :=
  req.isMultipart = req'.isMultipart ∧
    (req.isMultipart = true → req.partBoundary = req'.partBoundary)

section Request

variable {old old' req req' : Request} {after before ahead : List Byte} {curChar : Byte}
  {state state' : State} {prevIt prevIt' : Int} {remaining : UInt64} {l : Locals}

/-- Whatever is open in the next state is open in this one. -/
def State.Flows (state state' : State) : Prop :=
  state.beforeMethod = state'.beforeMethod ∧ state.beforeUri = state'.beforeUri ∧
    state.beforeVersion = state'.beforeVersion ∧ (state'.inValue = true → state.inValue = true) ∧
    (state'.inData = true → state.inData = true) ∧
    (state'.inMultipart = true → state.inMultipart = true)

instance (state state' : State) : Decidable (state.Flows state') := by
  unfold State.Flows
  infer_instance

/-- A turn that stores nothing. -/
theorem Kept.move (kept : Kept old old' state req req') (flows : state.Flows state') :
    Kept old old' state' req req' := by
  obtain ⟨beforeMethod, beforeUri, beforeVersion, inValue, inData, inMultipart⟩ := flows
  obtain ⟨headers, same, same', nonempty⟩ := kept.headers
  obtain ⟨parts, sameParts, sameParts', partsNonempty⟩ := kept.parts
  exact ⟨beforeMethod ▸ kept.method, beforeUri ▸ kept.uri, beforeVersion ▸ kept.version,
    ⟨headers, same, same', fun inside => nonempty (inValue inside)⟩,
    ⟨parts, sameParts, sameParts', fun inside => partsNonempty (inData inside)⟩,
    kept.content, kept.contentSize, kept.boundary,
    fun inside => kept.delimiter (inMultipart inside)⟩

theorem Kept.alike (kept : Kept old old' state req req') (flows : state.Flows state') :
    Alike old old' ⟨state', prevIt, remaining, req⟩ ⟨state', prevIt, remaining, req'⟩ :=
  ⟨req', rfl, kept.move flows⟩

/-- A request whose message is complete. -/
theorem Kept.sameMessage (kept : Kept old old' state req req')
    (late : state.beforeVersion = false) : SameMessage old old' req req' := by
  obtain ⟨headers, same, same', _⟩ := kept.headers
  obtain ⟨parts, sameParts, sameParts', _⟩ := kept.parts
  have lateMethod : state.beforeMethod = false := by
    cases state <;> first | rfl | cases late
  have lateUri : state.beforeUri = false := by
    cases state <;> first | rfl | cases late
  exact ⟨kept.method lateMethod, kept.uri lateUri, kept.version late, ⟨headers, same, same'⟩,
    ⟨parts, sameParts, sameParts'⟩, kept.content, kept.contentSize, kept.boundary⟩

theorem SameMessage.withContent (same : SameMessage old old' req req') (content : StringView) :
    SameMessage old old' { req with content } { req' with content } :=
  ⟨same.method, same.uri, same.version,
    { same.grown with content := Or.inr rfl }⟩

/-- Requests that brought the same flag have the same one. -/
theorem Kept.sameFlag (kept : Kept old old' state req req')
    (same : SameFlag old old') : SameFlag req req' := by
  rcases kept.boundary with ⟨flag, flag', boundary, boundary'⟩ | ⟨flag, boundary⟩
  · refine ⟨by rw [flag, flag', same.1], fun multi => ?_⟩
    rw [boundary, boundary', same.2 (flag.symm.trans multi)]
  · exact ⟨flag, fun _ => boundary⟩

/-- A flag that a fresh request has is set by the message. -/
theorem Kept.set_of_fresh (kept : Kept (.fresh 0) old state req req')
    (multi : req.isMultipart = true) :
    req.isMultipart = req'.isMultipart ∧ req.partBoundary = req'.partBoundary := by
  rcases kept.boundary with ⟨unset, _⟩ | both
  · rw [unset] at multi
    cases multi
  · exact both

/-- A multipart body starts with the same boundary in both. -/
theorem Kept.multipart (kept : Kept old old' .headerRnrn req req')
    (same : req.partBoundary = req'.partBoundary) :
    Kept old old' .multipartDataStart req req' := by
  have moved : Kept old old' .postDataStart req req' := kept.move (by decide)
  exact { moved with delimiter := fun _ => same }

theorem setLastValue_of_added {base front : List Request.Header} {last : Request.Header}
    (added : req.headers = base ++ (front ++ [last])) (value : StringView) :
    req.setLastValue value = some ({ last with value },
      { req with headers := base ++ (front ++ [{ last with value }]) }) := by
  unfold Request.setLastValue
  rw [added, ← List.append_assoc, List.getLast?_concat, List.dropLast_concat, Option.map_some,
    List.append_assoc]

theorem setLastData_of_added {base front : List Request.Part} {last : Request.Part}
    (added : req.parts = base ++ (front ++ [last])) (data : StringView) :
    req.setLastData data =
      some { req with parts := base ++ (front ++ [{ last with data }]) } := by
  unfold Request.setLastData
  rw [added, ← List.append_assoc, List.getLast?_concat, List.dropLast_concat, Option.map_some,
    List.append_assoc]

theorem sameOutcome_error (req req' : Request) :
    SameOutcome old old' (.returned .error req) (.returned .error req') :=
  ⟨rfl, fun completed => by cases completed⟩

/-- The end of a header value stores the same in both. -/
theorem finishHeaderValue_alike (memory : List Byte) (it : Int)
    (kept : Kept old old' .headerValueStart req req') :
    (finishHeaderValue memory before it ⟨.headerValueStart, prevIt, remaining, req⟩).Agree
      (fun _ => Alike old old') (SameOutcome old old')
      (finishHeaderValue memory before it ⟨.headerValueStart, prevIt, remaining, req'⟩) := by
  obtain ⟨added, same, same', nonempty⟩ := kept.headers
  obtain ⟨front, last, rfl⟩ := (List.eq_nil_or_concat' added).resolve_left (nonempty rfl)
  obtain ⟨parts, sameParts, sameParts', _⟩ := kept.parts
  have method := kept.method rfl
  have uri := kept.uri rfl
  have version := kept.version rfl
  have keeps (boundary boundary' : StringView) (size size' : UInt64) (flag flag' : Bool)
      (sizes : size = old.contentSize ∧ size' = old'.contentSize ∨ size = size')
      (agrees : flag = old.isMultipart ∧ flag' = old'.isMultipart ∧
          boundary = old.partBoundary ∧ boundary' = old'.partBoundary ∨
        flag = flag' ∧ boundary = boundary') (value : StringView) :
      Kept old old' .headerR
        { req with
          headers := old.headers ++ (front ++ [{ last with value }])
          contentSize := size, isMultipart := flag, partBoundary := boundary }
        { req' with
          headers := old'.headers ++ (front ++ [{ last with value }])
          contentSize := size', isMultipart := flag', partBoundary := boundary' } :=
    ⟨fun _ => method, fun _ => uri, fun _ => version,
      ⟨_, rfl, rfl, fun inside => by cases inside⟩,
      ⟨parts, sameParts, sameParts', fun inside => by cases inside⟩, kept.content, sizes, agrees,
      fun inside => by cases inside⟩
  unfold finishHeaderValue
  simp only [setLastValue_of_added same, setLastValue_of_added same']
  split
  · exact ⟨_, rfl, keeps _ _ _ _ _ _ kept.contentSize (Or.inr ⟨rfl, rfl⟩) _⟩
  · split
    · exact ⟨_, rfl, keeps _ _ _ _ _ _ (Or.inr rfl) kept.boundary _⟩
    · exact ⟨_, rfl, keeps _ _ _ _ _ _ kept.contentSize kept.boundary _⟩

/-- The data of a part is found at the same place in both. -/
theorem matchBoundaryBackwards_alike (it : Int)
    (kept : Kept old old' .partBodyStart req req') :
    (matchBoundaryBackwards before it ⟨.partBodyStart, prevIt, remaining, req⟩).Agree
      (fun _ => Alike old old') (SameOutcome old old')
      (matchBoundaryBackwards before it ⟨.partBodyStart, prevIt, remaining, req'⟩) := by
  obtain ⟨headers, sameHeaders, sameHeaders', _⟩ := kept.headers
  obtain ⟨added, same, same', nonempty⟩ := kept.parts
  obtain ⟨front, last, rfl⟩ := (List.eq_nil_or_concat' added).resolve_left (nonempty rfl)
  have method := kept.method rfl
  have uri := kept.uri rfl
  have version := kept.version rfl
  have delimiter := kept.delimiter rfl
  have boundary := kept.boundary
  rw [← delimiter] at boundary
  have keeps (data : StringView) (state : State) (notInValue : state.inValue = false)
      (notInData : state.inData = false) :
      Kept old old' state
        { req with parts := old.parts ++ (front ++ [{ last with data }]) }
        { req' with
          partBoundary := req.partBoundary
          parts := old'.parts ++ (front ++ [{ last with data }]) } :=
    ⟨fun _ => method, fun _ => uri, fun _ => version,
      ⟨headers, sameHeaders, sameHeaders',
        fun inside => by rw [notInValue] at inside; cases inside⟩,
      ⟨_, rfl, rfl, fun inside => by rw [notInData] at inside; cases inside⟩, kept.content,
      kept.contentSize, boundary, fun _ => rfl⟩
  unfold matchBoundaryBackwards
  simp only [setLastData_of_added same, setLastData_of_added same', ← delimiter]
  split
  · exact ⟨_, rfl, keeps _ _ rfl rfl⟩
  · split
    · split
      · exact ⟨_, rfl, keeps _ _ rfl rfl⟩
      · exact kept.alike (by decide)
    · exact kept.alike (by decide)

/-- Behind the head, the flag and the boundary of a request that has a body are consulted. -/
theorem turn_headerRnrn_alike (kept : Kept old old' .headerRnrn req req')
    (settled : (req.method.same before (.elsewhere (ascii "POST")) ||
      req.method.same before (.elsewhere (ascii "PUT"))) = true → SameFlag req req') :
    (turn after before curChar ahead ⟨.headerRnrn, prevIt, remaining, req⟩).Agree
      (fun _ => Alike old old') (SameOutcome old old')
      (turn after before curChar ahead ⟨.headerRnrn, prevIt, remaining, req'⟩) := by
  have sameMethod := kept.method rfl
  by_cases compared : (req.method.same before (.elsewhere (ascii "POST")) ||
      req.method.same before (.elsewhere (ascii "PUT"))) = true
  · have compared' := compared
    rw [sameMethod] at compared'
    obtain ⟨sameFlag, sameBoundary⟩ := settled compared
    simp only [turn, if_pos compared, if_pos compared']
    by_cases single : (!req.isMultipart) = true
    · have single' := single
      rw [sameFlag] at single'
      simp only [if_pos single, if_pos single']
      split
      · exact ⟨rfl, fun _ => (kept.sameMessage rfl).withContent _⟩
      · exact kept.alike (by decide)
    · have single' := single
      rw [sameFlag] at single'
      simp only [if_neg single, if_neg single']
      split
      · exact ⟨req', rfl, kept.multipart (sameBoundary (by simpa using single))⟩
      · exact sameOutcome_error _ _
  · have compared' := compared
    rw [sameMethod] at compared'
    simp only [turn, if_neg compared, if_neg compared']
    exact ⟨rfl, fun _ => kept.sameMessage rfl⟩

/-- Two loops in the middle of the same message take the same turn. -/
theorem turn_alike {l' : Locals} (alike : Alike old old' l l') (inside : l.state ≠ .headerRnrn) :
    (turn after before curChar ahead l).Agree (fun _ => Alike old old')
      (SameOutcome old old') (turn after before curChar ahead l') := by
  obtain ⟨req', rfl, kept⟩ := alike
  obtain ⟨state, prevIt, remaining, req⟩ := l
  simp only at kept ⊢
  cases state
  case methodStart =>
    simp only [turn]
    split
    · exact ⟨_, rfl, { kept with
        method := fun _ => rfl
        uri := fun late => by cases late
        version := fun late => by cases late }⟩
    · split
      · exact sameOutcome_error _ _
      · exact kept.alike (by decide)
  case headerValueStart =>
    simp only [turn]
    split
    · exact finishHeaderValue_alike _ _ kept
    · split
      · exact sameOutcome_error _ _
      · exact kept.alike (by decide)
  case partBodyStart =>
    simp only [turn]
    split
    · exact matchBoundaryBackwards_alike _ kept
    · exact kept.alike (by decide)
  case boundaryMatchStart =>
    simp only [turn, ← kept.delimiter rfl]
    split
    · split
      · exact kept.alike (by decide)
      · exact sameOutcome_error _ _
    · split
      · exact sameOutcome_error _ _
      · exact kept.alike (by decide)
  case uriStart =>
    simp only [turn]
    split
    · exact ⟨_, rfl, { kept with
        uri := fun _ => rfl
        version := fun late => by cases late }⟩
    · split
      · exact sameOutcome_error _ _
      · exact kept.alike (by decide)
  case versionStart =>
    simp only [turn]
    split
    · exact ⟨_, rfl, { kept with
        version := fun _ => rfl }⟩
    · split
      · exact sameOutcome_error _ _
      · exact kept.alike (by decide)
  case versionEndRnr | headerRnr | lastBoundaryMatch =>
    simp only [turn]
    repeat' split
    all_goals first
      | exact sameOutcome_error _ _
      | exact kept.alike (by decide)
      | exact ⟨rfl, fun _ => kept.sameMessage rfl⟩
  case headerStart =>
    obtain ⟨added, same, same', _⟩ := kept.headers
    simp only [turn]
    split
    · refine ⟨_, rfl, { kept with
        headers :=
          ⟨added ++ [{ name := .range prevIt before.length }], ?_, ?_, fun _ => by simp⟩ }⟩
      · simp only [same, List.append_assoc]
      · simp only [same', List.append_assoc]
    · split
      · exact sameOutcome_error _ _
      · exact kept.alike (by decide)
  case partInfoRn =>
    obtain ⟨added, same, same', _⟩ := kept.parts
    simp only [turn]
    split
    · refine ⟨_, rfl, { kept with
        parts :=
          ⟨added ++ [{ info := .range prevIt (before.length - 2) }], ?_, ?_, fun _ => by simp⟩ }⟩
      · simp only [same, List.append_assoc]
      · simp only [same', List.append_assoc]
    · split
      · exact kept.alike (by decide)
      · exact sameOutcome_error _ _
  case postDataStart =>
    simp only [turn]
    split
    · exact ⟨rfl, fun _ => (kept.sameMessage rfl).withContent _⟩
    · exact kept.alike (by decide)
  case headerRnrn => exact absurd rfl inside
  all_goals
    simp only [turn]
    repeat' split
    all_goals first
      | exact sameOutcome_error _ _
      | exact kept.alike (by decide)

theorem alike_start (old old' : Request) : Alike old old' (start old) (start old') :=
  ⟨old', rfl, (fun late => by cases late), (fun late => by cases late),
    (fun late => by cases late), ⟨[], (List.append_nil _).symm, (List.append_nil _).symm,
      fun inside => by cases inside⟩,
    ⟨[], (List.append_nil _).symm, (List.append_nil _).symm, fun inside => by cases inside⟩,
    Or.inl ⟨rfl, rfl⟩, Or.inl ⟨rfl, rfl⟩, Or.inl ⟨rfl, rfl, rfl, rfl⟩,
    fun inside => by cases inside⟩

/-- A body is not left but by a verdict. -/
theorem turn_inBody (inside : l.state.inBody = true ∨ l.state = .headerRnrn) :
    (turn after before curChar ahead l).Leads (fun _ next => next.state.inBody = true)
      (fun _ => True) := by
  obtain ⟨state, prevIt, remaining, req⟩ := l
  simp only at inside
  cases state
  case partBodyStart =>
    simp only [turn, matchBoundaryBackwards]
    repeat' split
    all_goals trivial
  all_goals
    first
      | exact absurd inside (by decide)
      | simp only [turn]
        repeat' split
        all_goals trivial

/-- What the guide knows of the head settles the flag of a request that has a body. -/
theorem Kept.settled (kept : Kept old old' .headerRnrn req req') {l l' : Locals}
    (guided : Guided old old' before 0 l l') (here : l = ⟨.headerRnrn, prevIt, remaining, req⟩)
    (here' : l' = ⟨.headerRnrn, prevIt, remaining, req'⟩)
    (reads : ReadsFlag (before ++ curChar :: ahead) → SameFlag old old')
    (compared : (req.method.same before (.elsewhere (ascii "POST")) ||
      req.method.same before (.elsewhere (ascii "PUT"))) = true) : SameFlag req req' := by
  subst here here'
  rcases guided with body | ⟨guide, ⟨_, trail⟩, ⟨_, same, first⟩, ⟨_, same', second⟩⟩
  · cases body
  obtain ⟨_, _, _, fresh⟩ := guide
  injection same with state prevIt' remaining' equal
  subst state prevIt' remaining' equal
  injection same' with _ _ _ equal'
  subst equal'
  obtain ⟨head, done, split⟩ := headDone_of_trail trail rfl
  cases announced : boundaryOf head.lines with
  | none =>
    have hasBody : HasBody head.line.method := by
      refine (same_method_iff done.read.line.method).mp ?_
      rw [first.method rfl]
      exact compared
    exact kept.sameFlag (reads ⟨head, curChar :: ahead, done.good, done.nonempty, hasBody,
      announced, List.cons_ne_nil _ _, by rw [split]⟩)
  | some boundary =>
    have multi : fresh.isMultipart = true := by
      rw [done.read.multipart, announced]
      rfl
    obtain ⟨flag, delimiter⟩ := first.set_of_fresh multi
    obtain ⟨flag', delimiter'⟩ := second.set_of_fresh multi
    exact ⟨flag.symm.trans flag', fun _ => delimiter.symm.trans delimiter'⟩

/-- A turn of two loops that a third one guides. -/
theorem turn_guided {l' : Locals} (alike : Alike old old' l l')
    (guided : Guided old old' before 0 l l')
    (reads : ReadsFlag (before ++ curChar :: ahead) → SameFlag old old') :
    (turn after before curChar ahead l).Agree
      (fun skip next next' => Alike old old' next next' ∧
        Guided old old' (before ++ [curChar]) skip next next')
      (SameOutcome old old') (turn after before curChar ahead l') := by
  by_cases inHead : l.state.inBody = true ∨ l.state = .headerRnrn
  · have together : (turn after before curChar ahead l).Agree
        (fun _ => Alike old old') (SameOutcome old old')
        (turn after before curChar ahead l') := by
      by_cases state : l.state = .headerRnrn
      · obtain ⟨req', rfl, kept⟩ := alike
        obtain ⟨_, prevIt, remaining, req⟩ := l
        simp only at state
        subst state
        exact turn_headerRnrn_alike kept (kept.settled guided rfl rfl reads)
      · exact turn_alike alike state
    exact (together.and_leads (turn_inBody inHead)).mono fun _ _ _ next => ⟨next.1, Or.inl next.2⟩
  · obtain ⟨outside, state⟩ := not_or.mp inHead
    obtain ⟨guide, ⟨_, trail⟩, first, second⟩ := guided.resolve_left outside
    have sameState : guide.state = l.state := by
      obtain ⟨_, rfl, _⟩ := first
      rfl
    rw [← sameState] at state
    exact ((turn_alike alike (sameState ▸ state)).and_guide (turn_trail trail)
      (turn_alike first state) (turn_alike second state)).mono
        fun _ _ _ next => ⟨next.1, Or.inr next.2⟩

/-- Two requests and one buffer. -/
theorem parse_sameOutcome (after : List Byte) (old old' : Request) (buf : List Byte)
    (reads : ReadsFlag buf → SameFlag old old') :
    SameOutcome old old' (parse after old buf) (parse after old' buf) := by
  have started : Guided old old' [] 0 (start old) (start old') :=
    Or.inr ⟨start (.fresh 0), ⟨rfl, trail_start 0⟩, alike_start _ _, alike_start _ _⟩
  unfold parse
  refine run_agree (fun before skip l l' => Alike old old' l l' ∧
      Guided old old' before skip l l') ⟨alike_start old old', started⟩ ?_ ?_ ?_ ?_
  · intro before symbol ahead l l' split together
    exact turn_guided together.1 together.2 (split ▸ reads)
  · rintro before symbol skip l l' ⟨alike, body | ⟨_, ⟨never, _⟩, _⟩⟩
    · exact ⟨alike, Or.inl body⟩
    · cases never
  · exact fun l l' _ => ⟨rfl, fun completed => by cases completed⟩
  · exact fun _ l l' _ => ⟨rfl, fun completed => by cases completed⟩

end Request

end RequestParser

namespace ResponseParser

/-! ### Responses that are used again -/

/-- Two responses hold the same message, besides what they held before. -/
structure SameMessage (old old' res res' : Response) : Prop where
  version : res.version = res'.version
  codestr : res.codestr = res'.codestr
  statusCode : res.statusCode = res'.statusCode
  status : res.status = res'.status
  headers : ∃ added, res.headers = old.headers ++ added ∧ res'.headers = old'.headers ++ added
  chunks : ∃ added, res.chunks = old.chunks ++ added ∧ res'.chunks = old'.chunks ++ added
  content : res.content = old.content ∧ res'.content = old'.content ∨ res.content = res'.content

/-- The verdicts are the same, and so are the messages where they are complete. -/
def SameOutcome (old old' : Response) (outcome outcome' : Outcome) : Prop :=
  outcome.verdict = outcome'.verdict ∧ (outcome.verdict = some .completed →
    SameMessage old old' outcome.response outcome'.response)

/-- The version has not been stored yet. -/
def State.beforeVersion : State → Bool
  | .statusStart | .statusStartH | .statusStartHt | .statusStartHtt | .statusStartHttp | .httpEnd
  | .versionStart => true
  | _ => false

/-- The status code has not been stored yet. -/
def State.beforeCode : State → Bool
  | .versionEnd | .statusCodeStart => true
  | state => state.beforeVersion

/-- The reason phrase has not been stored yet. -/
def State.beforeReason : State → Bool
  | .statusCodeEnd | .statusMsgStart | .statusMsg => true
  | state => state.beforeCode

/-- In a body. -/
def State.inBody : State → Bool
  | .dataStart | .newChunkStart | .chunkDataSize | .chunkDataSizeR | .chunkDataSizeRn
  | .chunkDataEnd | .chunkDataR | .zeroChunkSizeR => true
  | _ => false

/-- Two responses in the middle of the same message. -/
structure Kept (old old' : Response) (state : State) (res res' : Response) : Prop where
  version : state.beforeVersion = false → res.version = res'.version
  code : state.beforeCode = false → res.codestr = res'.codestr ∧ res.statusCode = res'.statusCode
  status : state.beforeReason = false → res.status = res'.status
  headers : ∃ added, res.headers = old.headers ++ added ∧ res'.headers = old'.headers ++ added
  chunks : ∃ added, res.chunks = old.chunks ++ added ∧ res'.chunks = old'.chunks ++ added
  content : res.content = old.content ∧ res'.content = old'.content ∨ res.content = res'.content
  isChunked : res.isChunked = old.isChunked ∧ res'.isChunked = old'.isChunked ∨
    res.isChunked = res'.isChunked

/-- The loops stand at the same place, with their responses in the middle of the same message. -/
def Alike (old old' : Response) (l l' : Locals) : Prop :=
  ∃ res', l' = { l with res := res' } ∧ Kept old old' l.state l.res res'

/-- Until the body, a fresh response reads along. -/
def Guided (old old' : Response) (memory before : List Byte) (skip : Nat) (l l' : Locals) : Prop :=
  l.state.inBody = true ∨ ∃ guide, Trail memory before skip guide ∧ Alike .fresh old guide l ∧
    Alike .fresh old' guide l'

/-- The body of the buffer is read as the flag that the object holds says: there are header lines
and none of them announces chunks. -/
def ReadsFlag (buf : List Byte) : Prop :=
  ∃ (head : ResponseHead) (rest : List Byte), head.WellFormed ∧ head.lines ≠ [] ∧
    head.lines.any announcesChunks = false ∧ buf = head.bytes ++ rest

variable {old old' res res' : Response} {memory after before ahead : List Byte} {curChar : Byte}
  {state state' : State} {prevIt contentLength newChunkSize : Int} {headerName : StringView}
  {l l' : Locals}

/-- The status line is stored as far in one state as in the other. -/
def State.Flows (state state' : State) : Prop :=
  state.beforeVersion = state'.beforeVersion ∧ state.beforeCode = state'.beforeCode ∧
    state.beforeReason = state'.beforeReason

instance (state state' : State) : Decidable (state.Flows state') := by
  unfold State.Flows
  infer_instance

/-- A turn that stores nothing. -/
theorem Kept.alike (kept : Kept old old' state res res') (flows : state.Flows state') :
    Alike old old' ⟨state', prevIt, headerName, contentLength, newChunkSize, res⟩
      ⟨state', prevIt, headerName, contentLength, newChunkSize, res'⟩ := by
  obtain ⟨beforeVersion, beforeCode, beforeReason⟩ := flows
  exact ⟨res', rfl, beforeVersion ▸ kept.version, beforeCode ▸ kept.code,
    beforeReason ▸ kept.status, kept.headers, kept.chunks, kept.content, kept.isChunked⟩

/-- A response whose message is complete. -/
theorem Kept.sameMessage (kept : Kept old old' state res res')
    (late : state.beforeReason = false) : SameMessage old old' res res' := by
  have lateCode : state.beforeCode = false := by
    cases state <;> first | rfl | cases late
  have lateVersion : state.beforeVersion = false := by
    cases state <;> first | rfl | cases late
  exact ⟨kept.version lateVersion, (kept.code lateCode).1, (kept.code lateCode).2,
    kept.status late, kept.headers, kept.chunks, kept.content⟩

theorem sameOutcome_error (res res' : Response) :
    SameOutcome old old' (.returned .error res) (.returned .error res') :=
  ⟨rfl, fun completed => by cases completed⟩

/-- The end of a header value stores the same in both. -/
theorem finishHeaderValue_alike (memory : List Byte) (it : Int)
    (kept : Kept old old' .headerValueStart res res') :
    (finishHeaderValue memory before it
        ⟨.headerValueStart, prevIt, headerName, contentLength, newChunkSize, res⟩).Agree
      (fun _ => Alike old old') (SameOutcome old old')
      (finishHeaderValue memory before it
        ⟨.headerValueStart, prevIt, headerName, contentLength, newChunkSize, res'⟩) := by
  obtain ⟨added, same, same'⟩ := kept.headers
  have keeps (flag flag' : Bool) (value : StringView)
      (sameFlag : flag = old.isChunked ∧ flag' = old'.isChunked ∨ flag = flag') :
      Kept old old' .headerR
        { res with headers := res.headers ++ [{ name := headerName, value }], isChunked := flag }
        { res' with
          headers := res'.headers ++ [{ name := headerName, value }], isChunked := flag' } :=
    ⟨fun _ => kept.version rfl, fun _ => kept.code rfl, fun _ => kept.status rfl,
      ⟨added ++ [{ name := headerName, value }], by simp only [same, List.append_assoc],
        by simp only [same', List.append_assoc]⟩, kept.chunks, kept.content, sameFlag⟩
  unfold finishHeaderValue
  simp only
  split
  · exact ⟨_, rfl, keeps _ _ _ (Or.inr rfl)⟩
  · split
    · exact ⟨_, rfl, keeps _ _ _ kept.isChunked⟩
    · exact ⟨_, rfl, keeps _ _ _ kept.isChunked⟩

/-- Behind the head, the flag is consulted. -/
theorem turn_headerRnr_alike (kept : Kept old old' .headerRnr res res')
    (settled : curChar = LF → res.isChunked = res'.isChunked) :
    (turn after before curChar ahead
        ⟨.headerRnr, prevIt, headerName, contentLength, newChunkSize, res⟩).Agree
      (fun _ => Alike old old') (SameOutcome old old')
      (turn after before curChar ahead
        ⟨.headerRnr, prevIt, headerName, contentLength, newChunkSize, res'⟩) := by
  by_cases feed : curChar = LF
  · simp only [turn, if_pos feed, ← settled feed]
    split
    · exact kept.alike (by decide)
    · exact kept.alike (by decide)
  · simp only [turn, if_neg feed]
    exact sameOutcome_error _ _

/-- Two loops in the middle of the same message take the same turn. -/
theorem turn_alike (alike : Alike old old' l l') (inside : l.state ≠ .headerRnr) :
    (turn after before curChar ahead l).Agree (fun _ => Alike old old') (SameOutcome old old')
      (turn after before curChar ahead l') := by
  obtain ⟨res', rfl, kept⟩ := alike
  obtain ⟨state, prevIt, headerName, contentLength, newChunkSize, res⟩ := l
  simp only at kept ⊢
  cases state
  case versionStart =>
    simp only [turn]
    split
    · exact kept.alike (by decide)
    · split
      · exact ⟨_, rfl, { kept with
          version := fun _ => rfl
          code := fun late => by cases late
          status := fun late => by cases late }⟩
      · exact sameOutcome_error _ _
  case statusCodeStart =>
    simp only [turn]
    split
    · exact kept.alike (by decide)
    · split
      · split
        · exact ⟨_, rfl, { kept with
            code := fun _ => ⟨rfl, rfl⟩
            status := fun late => by cases late }⟩
        · exact sameOutcome_error _ _
      · exact sameOutcome_error _ _
  case statusMsg =>
    simp only [turn]
    split
    · exact ⟨_, rfl, { kept with status := fun _ => rfl }⟩
    · split
      · exact sameOutcome_error _ _
      · exact kept.alike (by decide)
  case headerValueStart =>
    simp only [turn]
    split
    · exact kept.alike (by decide)
    · split
      · exact finishHeaderValue_alike _ _ kept
      · exact sameOutcome_error _ _
  case headerRnr => exact absurd rfl inside
  case dataStart =>
    have same := kept.sameMessage rfl
    exact ⟨rfl, fun _ => ⟨same.version, same.codestr, same.statusCode, same.status, same.headers,
      same.chunks, Or.inr rfl⟩⟩
  case statusMsgEndRnr | zeroChunkSizeR =>
    simp only [turn]
    split
    · exact ⟨rfl, fun _ => kept.sameMessage rfl⟩
    · exact sameOutcome_error _ _
  case chunkDataSize =>
    simp only [turn]
    split
    · exact kept.alike (by decide)
    · split
      · split
        · exact ⟨rfl, fun completed => by cases completed⟩
        · split
          · exact kept.alike (by decide)
          · exact kept.alike (by decide)
      · exact sameOutcome_error _ _
  case chunkDataSizeRn =>
    obtain ⟨added, same, same'⟩ := kept.chunks
    simp only [turn, takeChunk]
    split
    · exact ⟨rfl, _, rfl, { kept with
        chunks :=
          ⟨added ++ [⟨newChunkSize, .range before.length (before.length + newChunkSize)⟩],
            by simp only [same, List.append_assoc], by simp only [same', List.append_assoc]⟩ }⟩
    · exact sameOutcome_error _ _
  all_goals
    simp only [turn]
    repeat' split
    all_goals first
      | exact sameOutcome_error _ _
      | exact kept.alike (by decide)

theorem alike_start (old old' : Response) : Alike old old' (start old) (start old') :=
  ⟨old', rfl, (fun late => by cases late), (fun late => by cases late),
    (fun late => by cases late), ⟨[], (List.append_nil _).symm, (List.append_nil _).symm⟩,
    ⟨[], (List.append_nil _).symm, (List.append_nil _).symm⟩, Or.inl ⟨rfl, rfl⟩,
    Or.inl ⟨rfl, rfl⟩⟩

/-- A body is not left but by a verdict. -/
theorem turn_inBody (inside : l.state.inBody = true ∨ l.state = .headerRnr) :
    (turn after before curChar ahead l).Leads (fun _ next => next.state.inBody = true)
      (fun _ => True) := by
  obtain ⟨state, prevIt, headerName, contentLength, newChunkSize, res⟩ := l
  simp only at inside
  cases state
  case chunkDataSizeRn =>
    simp only [turn, takeChunk]
    split
    · exact rfl
    · trivial
  all_goals
    first
      | exact absurd inside (by decide)
      | simp only [turn]
        repeat' split
        all_goals trivial

/-- A flag that a fresh response has is set by the message. -/
theorem Kept.set_of_fresh (kept : Kept .fresh old state res res') (chunked : res.isChunked = true) :
    res.isChunked = res'.isChunked := by
  rcases kept.isChunked with ⟨unset, _⟩ | same
  · rw [unset] at chunked
    cases chunked
  · exact same

/-- Behind the last header line, a whole head has been read. -/
theorem headDone_of_trail (trail : Trail memory before 0 l) (state : l.state = .headerRnr) :
    ∃ head, HeadDone memory head before l.contentLength l.res ∧ before ++ [LF] = head.bytes := by
  rcases trail with ⟨jumping, _⟩ | ⟨_, ⟨inStatus, _⟩ | header | body⟩
  · rw [state] at jumping
    cases jumping
  · rw [state] at inStatus
    simp [State.InStatus] at inStatus
  · rw [HeaderTrail, state] at header
    obtain ⟨head, done, same⟩ := header
    exact ⟨head, done, by rw [same]; simp [ResponseHead.bytes]⟩
  · rw [BodyTrail, state] at body
    exact body.elim

/-- What the guide knows of the head settles the flag. -/
theorem Alike.settled (alike : Alike old old' l l') (guided : Guided old old' memory before 0 l l')
    (state : l.state = .headerRnr)
    (reads : ReadsFlag (before ++ LF :: ahead) → old.isChunked = old'.isChunked) :
    l.res.isChunked = l'.res.isChunked := by
  obtain ⟨res', rfl, kept⟩ := alike
  rcases guided with body | ⟨guide, trail, ⟨res, rfl, first⟩, ⟨_, same, second⟩⟩
  · rw [state] at body
    cases body
  injection same with _ _ _ _ _ equal
  subst equal
  obtain ⟨head, done, split⟩ := headDone_of_trail trail state
  cases announced : head.lines.any announcesChunks with
  | false =>
    have agreed := reads ⟨head, ahead, done.good, done.nonempty, announced, by
      rw [← split, List.append_assoc, List.singleton_append]⟩
    rcases kept.isChunked with ⟨flag, flag'⟩ | same
    · exact flag.trans (agreed.trans flag'.symm)
    · exact same
  | true =>
    have chunked : guide.res.isChunked = true := done.read.isChunked.trans announced
    exact (first.set_of_fresh chunked).symm.trans (second.set_of_fresh chunked)

/-- A turn of two loops that a third one guides. -/
theorem turn_guided (whole : memory = before ++ curChar :: ahead ++ after)
    (alike : Alike old old' l l') (guided : Guided old old' memory before 0 l l')
    (reads : ReadsFlag (before ++ curChar :: ahead) → old.isChunked = old'.isChunked) :
    (turn after before curChar ahead l).Agree
      (fun skip next next' => Alike old old' next next' ∧
        Guided old old' memory (before ++ [curChar]) skip next next')
      (SameOutcome old old') (turn after before curChar ahead l') := by
  by_cases inHead : l.state.inBody = true ∨ l.state = .headerRnr
  · have together : (turn after before curChar ahead l).Agree
        (fun _ => Alike old old') (SameOutcome old old') (turn after before curChar ahead l') := by
      by_cases state : l.state = .headerRnr
      · have settled : curChar = LF → l.res.isChunked = l'.res.isChunked := by
          rintro rfl
          exact alike.settled guided state reads
        obtain ⟨res', rfl, kept⟩ := alike
        obtain ⟨_, prevIt, headerName, contentLength, newChunkSize, res⟩ := l
        simp only at state
        subst state
        exact turn_headerRnr_alike kept settled
      · exact turn_alike alike state
    exact (together.and_leads (turn_inBody inHead)).mono fun _ _ _ next => ⟨next.1, Or.inl next.2⟩
  · obtain ⟨outside, state⟩ := not_or.mp inHead
    obtain ⟨guide, trail, first, second⟩ := guided.resolve_left outside
    have sameState : guide.state = l.state := by
      obtain ⟨_, rfl, _⟩ := first
      rfl
    rw [← sameState] at state
    exact ((turn_alike alike (sameState ▸ state)).and_guide (turn_trail whole trail)
      (turn_alike first state) (turn_alike second state)).mono
        fun _ _ _ next => ⟨next.1, Or.inr next.2⟩

/-- Two responses and one buffer. -/
theorem parse_sameOutcome (after : List Byte) (old old' : Response) (buf : List Byte)
    (reads : ReadsFlag buf → old.isChunked = old'.isChunked) :
    SameOutcome old old' (parse after old buf) (parse after old' buf) := by
  have started : Guided old old' (buf ++ after) [] 0 (start old) (start old') :=
    Or.inr ⟨start .fresh, trail_start _, alike_start _ _, alike_start _ _⟩
  unfold parse
  refine run_agree (fun before skip l l' => Alike old old' l l' ∧
      Guided old old' (buf ++ after) before skip l l') ⟨alike_start old old', started⟩ ?_ ?_ ?_ ?_
  · intro before symbol ahead l l' split together
    exact turn_guided (by rw [← split]) together.1 together.2 (split ▸ reads)
  · rintro before symbol skip l l' ⟨alike, body | ⟨guide, trail, near⟩⟩
    · exact ⟨alike, Or.inl body⟩
    · exact ⟨alike, Or.inr ⟨guide, trail.skipped symbol, near⟩⟩
  · exact fun l l' _ => ⟨rfl, fun completed => by cases completed⟩
  · exact fun _ l l' _ => ⟨rfl, fun completed => by cases completed⟩

end ResponseParser

namespace MessageReuse

/-! ### What a message object brings in -/

/-- Two requests end up equal in everything that is read of them. -/
def EqualRequests (outcome outcome' : RequestParser.Outcome) : Prop :=
  outcome.verdict = outcome'.verdict ∧ (outcome.verdict = some .completed →
    outcome.request.method = outcome'.request.method ∧
    outcome.request.uri = outcome'.request.uri ∧
    outcome.request.version = outcome'.request.version ∧
    outcome.request.headers = outcome'.request.headers ∧
    outcome.request.content = outcome'.request.content ∧
    outcome.request.partBoundary = outcome'.request.partBoundary ∧
    outcome.request.parts = outcome'.request.parts)

/-- Two responses end up equal in everything that is read of them. -/
def EqualResponses (outcome outcome' : ResponseParser.Outcome) : Prop :=
  outcome.verdict = outcome'.verdict ∧ (outcome.verdict = some .completed →
    outcome.response.version = outcome'.response.version ∧
    outcome.response.status = outcome'.response.status ∧
    outcome.response.headers = outcome'.response.headers ∧
    outcome.response.content = outcome'.response.content ∧
    outcome.response.chunks = outcome'.response.chunks)

/-- What an object held before has no influence on what is read into it. -/
def LeaksNothing : Prop :=
  (∀ (after : List Byte) (old old' : Request) (buf : List Byte),
    EqualRequests (RequestParser.parse after old buf) (RequestParser.parse after old' buf)) ∧
  ∀ (after : List Byte) (old old' : Response) (buf : List Byte),
    EqualResponses (ResponseParser.parse after old buf) (ResponseParser.parse after old' buf)

/-- A parse adds its message to what the object held. Two requests get the same verdict and the
same message if they agree in the flag and the boundary of a multipart message, where these are
read: behind a head with a body that announces no boundary. Two responses do if they agree in the
flag of a chunked one, where it is read: behind header lines that announce no chunks. -/
theorem parse_addsMessage (after buf : List Byte) :
    (∀ old old' : Request,
      (RequestParser.ReadsFlag buf → RequestParser.SameFlag old old') →
      RequestParser.SameOutcome old old' (RequestParser.parse after old buf)
        (RequestParser.parse after old' buf)) ∧
    ∀ old old' : Response,
      (ResponseParser.ReadsFlag buf → old.isChunked = old'.isChunked) →
      ResponseParser.SameOutcome old old' (ResponseParser.parse after old buf)
        (ResponseParser.parse after old' buf) :=
  ⟨fun old old' reads => RequestParser.parse_sameOutcome after old old' buf reads,
    fun old old' reads => ResponseParser.parse_sameOutcome after old old' buf reads⟩

/-- A request with a body of two bytes. -/
def shortPost : List Byte :=
  ascii "POST / HTTP/1.1\r\nHost: h\r\nContent-Length: 2\r\n\r\nok"

/-- A response with a body of two bytes. -/
def shortReply : List Byte :=
  ascii "HTTP/1.1 200 OK\r\nContent-Length: 2\r\n\r\nok"

/-- A request that holds a header, a part and the boundary of an earlier message. -/
def usedRequest : Request :=
  { Request.fresh 0 with
    headers := [{}], partBoundary := .elsewhere (ascii "old"), parts := [{}] }

/-- A response that holds a header of an earlier message. -/
def usedResponse : Response := { Response.fresh with headers := [⟨.empty, .empty⟩] }

theorem parse_addsMessage_usedRequest :
    (RequestParser.SameOutcome (.fresh 5) usedRequest
        (RequestParser.parse [] (.fresh 5) shortPost)
        (RequestParser.parse [] usedRequest shortPost) ∧
      (RequestParser.parse [] usedRequest shortPost).verdict = some .completed) ∧
    ResponseParser.SameOutcome .fresh usedResponse (ResponseParser.parse [] .fresh shortReply)
      (ResponseParser.parse [] usedResponse shortReply) ∧
    (ResponseParser.parse [] usedResponse shortReply).verdict = some .completed :=
  ⟨⟨(parse_addsMessage [] shortPost).1 (.fresh 5) usedRequest
      (fun _ => ⟨rfl, fun multi => by cases multi⟩), by decide⟩,
    (parse_addsMessage [] shortReply).2 .fresh usedResponse (fun _ => rfl), by decide⟩

def bareGet : List Byte := ascii "GET / HTTP/1.1\r\n\r\n"

/-- A request of which the flag of a multipart message is set. -/
def flaggedRequest : Request := { Request.fresh 0 with isMultipart := true }

/-- The header of the earlier message is still there, and a flag that is set changes the verdict on
a body. -/
theorem not_leaksNothing :
    ¬ LeaksNothing ∧ (RequestParser.parse [] (.fresh 0) shortPost).verdict = some .completed ∧
      (RequestParser.parse [] flaggedRequest shortPost).verdict = some .error := by
  refine ⟨fun leaks => ?_, by decide, by decide⟩
  have equal := (leaks.1 [] (.fresh 0) usedRequest bareGet).2 (by decide)
  exact absurd equal.2.2.2.1 (by decide)

end MessageReuse

end Sheep
