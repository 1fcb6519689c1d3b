/-
This file describes what the parser must have read to be where it is. The trail
of a state gives the bytes read so far as a part of the grammar, and every turn
keeps it. So whatever the parser accepts is of the grammar, and a part's body
starts where the grammar and the delimiters found so far say it does.
-/

import Sheep.RequestMultipart

namespace Sheep

open ScanLoop

namespace RequestParser

/-! ### The trail of a request line -/

abbrev IsMethod (text : List Byte) : Prop := Token (isAlpha · = true) (isAlpha · = true) text

abbrev IsUri (text : List Byte) : Prop := Token Plain (fun byte => Plain byte ∧ byte ≠ SP) text

abbrev IsVersion (text : List Byte) : Prop :=
  Token (isDigit · = true) (fun byte => isDigit byte = true ∨ byte = chr '.') text

/-- The method and the uri have been read and stored. -/
structure Targeted (method uri before : List Byte) (req : Request) : Prop where
  isMethod : IsMethod method
  isUri : IsUri uri
  method : req.method.text before = some method
  uri : req.uri.text before = some uri

theorem Targeted.append {method uri before : List Byte} {req : Request}
    (targeted : Targeted method uri before req) (more : List Byte) :
    Targeted method uri (before ++ more) req :=
  ⟨targeted.isMethod, targeted.isUri, StringView.text_append targeted.method more,
    StringView.text_append targeted.uri more⟩

/-- What has been read of a request line in each of its states. -/
def LineTrail (before : List Byte) (l : Locals) : Prop :=
  match l.state with
  | .methodUnstart => before = [] ∧ l.prevIt = 0
  | .methodStart => IsMethod before ∧ l.prevIt = 0
  | .methodEnd => ∃ method, IsMethod method ∧ before = method ++ [SP] ∧
      l.req.method.text before = some method
  | .uriStart => ∃ method uri, IsMethod method ∧ IsUri uri ∧ before = method ++ [SP] ++ uri ∧
      l.req.method.text before = some method ∧ l.prevIt = (method ++ [SP]).length
  | .uriEnd => ∃ method uri, Targeted method uri before l.req ∧
      before = method ++ SP :: (uri ++ [SP])
  | .httpStart => ∃ method uri name, Targeted method uri before l.req ∧
      before = method ++ SP :: (uri ++ [SP]) ++ name ∧
      l.prevIt = (method ++ SP :: (uri ++ [SP])).length
  | .httpEnd => ∃ method uri, Targeted method uri before l.req ∧
      before = method ++ SP :: (uri ++ SP :: ascii "HTTP/")
  | .versionStart => ∃ method uri version, Targeted method uri before l.req ∧ IsVersion version ∧
      before = method ++ SP :: (uri ++ SP :: ascii "HTTP/") ++ version ∧
      l.prevIt = (method ++ SP :: (uri ++ SP :: ascii "HTTP/")).length
  | .versionEndR => ∃ line : RequestLine, line.WellFormed ∧ before ++ [LF] = line.bytes ∧
      LineRead line before l.req
  | _ => False

/-- Nothing but the request line is stored. -/
def OnlyLine (size : UInt64) (l : Locals) : Prop :=
  l.remainingContentSize = 0 ∧
    ∃ method uri version, l.req = { Request.fresh size with method, uri, version }

/-- The states of the request line. -/
def State.InLine (state : State) : Prop :=
  state = .methodUnstart ∨ state = .methodStart ∨ state = .methodEnd ∨ state = .uriStart ∨
    state = .uriEnd ∨ state = .httpStart ∨ state = .httpEnd ∨ state = .versionStart ∨
    state = .versionEndR

variable {after before ahead : List Byte} {curChar : Byte} {l : Locals} {size : UInt64}

/-- A turn in the request line stores nothing else. -/
theorem turn_onlyLine (only : OnlyLine size l) (state : l.state.InLine) :
    (turn after before curChar ahead l).Leads (fun _ next => OnlyLine size next)
      (fun _ => True) := by
  obtain ⟨_, prevIt, remaining, req⟩ := l
  obtain ⟨none, method, uri, version, same⟩ := only
  simp only at none same
  subst none same
  rcases state with rfl | rfl | rfl | rfl | rfl | rfl | rfl | rfl | rfl <;>
    · simp only [turn]
      repeat' split
      all_goals first | trivial | exact ⟨rfl, _, _, _, rfl⟩

/-- A turn in the request line keeps its trail, or ends the line. -/
theorem turn_lineTrail (trail : LineTrail before l) :
    (turn after before curChar ahead l).Leads
      (fun skip next => skip = 0 ∧ (LineTrail (before ++ [curChar]) next ∨
        next.state = .versionEndRn ∧ ∃ line : RequestLine, line.WellFormed ∧
          before ++ [curChar] = line.bytes ∧ LineRead line (before ++ [curChar]) next.req))
      (fun _ => True) := by
  obtain ⟨state, prevIt, remaining, req⟩ := l
  cases state <;> simp only [LineTrail] at trail
  case methodUnstart =>
    obtain ⟨rfl, rfl⟩ := trail
    simp only [turn]
    split
    · trivial
    · rename_i alpha
      exact ⟨rfl, Or.inl ⟨token_singleton (by simpa using alpha), rfl⟩⟩
  case methodStart =>
    obtain ⟨isMethod, rfl⟩ := trail
    simp only [turn]
    split
    · rename_i space
      exact ⟨rfl, Or.inl ⟨before, isMethod, by rw [space],
        StringView.text_range [] before [curChar] (by simp) rfl rfl⟩⟩
    · split
      · trivial
      · rename_i alpha
        exact ⟨rfl, Or.inl ⟨isMethod.snoc (by simpa using alpha), rfl⟩⟩
  case methodEnd =>
    obtain ⟨method, isMethod, rfl, stored⟩ := trail
    simp only [turn]
    split
    · trivial
    · rename_i plain
      exact ⟨rfl, Or.inl ⟨method, [curChar], isMethod, token_singleton (by simpa using plain), rfl,
        StringView.text_append stored _, rfl⟩⟩
  case uriStart =>
    obtain ⟨method, uri, isMethod, isUri, rfl, stored, rfl⟩ := trail
    simp only [turn]
    split
    · rename_i space
      refine ⟨rfl, Or.inl ⟨method, uri, ⟨isMethod, isUri, StringView.text_append stored _, ?_⟩, ?_⟩⟩
      · exact StringView.text_range (method ++ [SP]) uri [curChar] rfl rfl rfl
      · rw [space]
        simp
    · rename_i notSpace
      split
      · trivial
      · rename_i plain
        exact ⟨rfl, Or.inl ⟨method, uri ++ [curChar], isMethod,
          isUri.snoc ⟨by simpa using plain, notSpace⟩, by simp, StringView.text_append stored _,
          rfl⟩⟩
  case uriEnd =>
    obtain ⟨method, uri, targeted, rfl⟩ := trail
    simp only [turn]
    split
    · exact ⟨rfl, Or.inl ⟨method, uri, [curChar], targeted.append _, rfl, rfl⟩⟩
    · trivial
  case httpStart =>
    obtain ⟨method, uri, name, targeted, rfl, rfl⟩ := trail
    simp only [turn]
    split
    · rename_i slash
      split
      · rename_i compared
        have named : name = ascii "HTTP" := by
          refine (StringView.same_iff_of_text ?_ rfl).mp compared
          exact StringView.text_range _ name [] (List.append_nil _).symm rfl rfl
        refine ⟨rfl, Or.inl ⟨method, uri, targeted.append _, ?_⟩⟩
        rw [named, slash]
        simp [ascii]
      · trivial
    · split
      · trivial
      · exact ⟨rfl, Or.inl ⟨method, uri, name ++ [curChar], targeted.append _, by simp, rfl⟩⟩
  case httpEnd =>
    obtain ⟨method, uri, targeted, rfl⟩ := trail
    simp only [turn]
    split
    · rename_i digit
      exact ⟨rfl, Or.inl ⟨method, uri, [curChar], targeted.append _, token_singleton digit, rfl,
        rfl⟩⟩
    · trivial
  case versionStart =>
    obtain ⟨method, uri, version, targeted, isVersion, rfl, rfl⟩ := trail
    simp only [turn]
    split
    · rename_i carriage
      have more := targeted.append [curChar]
      refine ⟨rfl, Or.inl ⟨⟨method, uri, version⟩, ⟨targeted.isMethod, targeted.isUri, isVersion⟩,
        ?_, more.method, more.uri, ?_⟩⟩
      · rw [carriage]
        simp [RequestLine.bytes]
      · exact StringView.text_range _ version [curChar] rfl rfl rfl
    · split
      · trivial
      · rename_i digitOrDot
        refine ⟨rfl, Or.inl ⟨method, uri, version ++ [curChar], targeted.append _,
          isVersion.snoc ?_, by simp, rfl⟩⟩
        by_cases digit : isDigit curChar = true
        · exact Or.inl digit
        · exact Or.inr (by simpa [digit] using digitOrDot)
  case versionEndR =>
    obtain ⟨line, good, same, read⟩ := trail
    simp only [turn]
    split
    · rename_i feed
      exact ⟨rfl, Or.inr ⟨rfl, line, good, by rw [feed, same], read.append _⟩⟩
    · trivial

/-! ### The trail of header lines -/

/-- A request line and header lines have been read up to here. -/
structure LinesRead (line : RequestLine) (lines : List HeaderLine) (before : List Byte)
    (remaining : UInt64) (req : Request) : Prop where
  good : line.WellFormed
  goodLines : ∀ header ∈ lines, GoodLine header
  bytes : before = line.bytes ++ headerBytes lines
  read : HeadRead line lines before remaining req

/-- A whole head has been read, to be followed by a body or not. -/
structure HeadDone (head : RequestHead) (before : List Byte) (remaining : UInt64)
    (req : Request) : Prop where
  good : head.WellFormed
  nonempty : head.lines ≠ []
  read : HeadRead head.line head.lines before remaining req

/-- A header line of which the name has been stored. -/
structure NameRead (line : RequestLine) (lines : List HeaderLine) (start name : List Byte)
    (l : Locals) : Prop where
  isName : Token Plain (fun byte => Plain byte ∧ byte ≠ chr ':') name
  stored : ∃ req, LinesRead line lines start l.remainingContentSize req ∧
    l.req = { req with headers := req.headers ++
      [{ name := .range start.length (start ++ name).length }] }

/-- What has been read in each state of the header lines. -/
def HeaderTrail (before : List Byte) (l : Locals) : Prop :=
  match l.state with
  | .versionEndRn => ∃ line, LinesRead line [] before l.remainingContentSize l.req
  | .versionEndRnr => ∃ line : RequestLine, line.WellFormed ∧ before = line.bytes ++ [CR] ∧
      LineRead line before l.req
  | .headerStart => ∃ line lines start name,
      LinesRead line lines start l.remainingContentSize l.req ∧
      Token Plain (fun byte => Plain byte ∧ byte ≠ chr ':') name ∧ before = start ++ name ∧
      l.prevIt = start.length
  | .headerNameEnd => ∃ line lines start name, NameRead line lines start name l ∧
      before = start ++ name ++ [chr ':']
  | .headerNameValueSpace => ∃ line lines start name, NameRead line lines start name l ∧
      before = start ++ name ++ [chr ':', SP]
  | .headerValueStart => ∃ line lines start header, NameRead line lines start header.name l ∧
      GoodLine header ∧ before = start ++ header.name ++ colonText header.spaced ++ header.value ∧
      l.prevIt = (start ++ header.name ++ colonText header.spaced).length
  | .headerR => ∃ head : RequestHead, HeadDone head before l.remainingContentSize l.req ∧
      before ++ [LF] = head.line.bytes ++ headerBytes head.lines
  | .headerRn => ∃ head : RequestHead, HeadDone head before l.remainingContentSize l.req ∧
      before = head.line.bytes ++ headerBytes head.lines
  | .headerRnr => ∃ head : RequestHead, HeadDone head before l.remainingContentSize l.req ∧
      before = head.line.bytes ++ headerBytes head.lines ++ [CR]
  | .headerRnrn => ∃ head : RequestHead, HeadDone head before l.remainingContentSize l.req ∧
      before = head.bytes
  | _ => False

theorem HeadDone.append {head : RequestHead} {remaining : UInt64} {req : Request}
    (done : HeadDone head before remaining req) (more : List Byte) :
    HeadDone head (before ++ more) remaining req :=
  ⟨done.good, done.nonempty, done.read.append more⟩

theorem HeadDone.linesRead {head : RequestHead} {remaining : UInt64} {req : Request}
    (done : HeadDone head before remaining req)
    (same : before = head.line.bytes ++ headerBytes head.lines) :
    LinesRead head.line head.lines before remaining req :=
  ⟨done.good.line, done.good.lines, same, done.read⟩

/-- The carriage return after a value ends its header line. -/
theorem finishHeaderValue_headerTrail {line : RequestLine} {lines : List HeaderLine}
    {start : List Byte} {header : HeaderLine}
    (named : NameRead line lines start header.name l) (good : GoodLine header)
    (split : before = start ++ header.name ++ colonText header.spaced ++ header.value)
    (starts : l.prevIt = (start ++ header.name ++ colonText header.spaced).length)
    (state : l.state = .headerValueStart) :
    (finishHeaderValue (before ++ CR :: (ahead ++ after)) before before.length l).Leads
      (fun skip next => skip = 0 ∧ HeaderTrail (before ++ [CR]) next) (fun _ => True) := by
  obtain ⟨_, prevIt, remaining, req'⟩ := l
  obtain ⟨isName, req, ⟨goodLine, goodLines, bytes, read⟩, same⟩ := named
  simp only at same starts state read
  subst same starts state split
  have finished := finishHeaderValue_read (colonText header.spaced) (ahead ++ after) header read
  generalize finishHeaderValue _ _ _ _ = turned at finished ⊢
  cases turned with
  | leave outcome notes => trivial
  | jump count next notes => exact absurd finished id
  | go next notes =>
    obtain ⟨nextState, prevIt', remaining', req''⟩ := next
    obtain ⟨state, readMore⟩ := finished
    simp only at state readMore
    subst state
    refine ⟨rfl, ⟨line, lines ++ [header]⟩, ⟨⟨goodLine, fun other member => ?_⟩, ?_, ?_⟩, ?_⟩
    · rcases List.mem_append.mp member with old | new
      · exact goodLines other old
      · rw [List.mem_singleton.mp new]
        exact good
    · simp
    · exact readMore.append [CR]
    · rw [headerBytes_snoc, bytes]
      simp [HeaderLine.bytes, colonText]

/-- A turn in the header lines keeps their trail, or goes on to a body. -/
theorem turn_headerTrail (trail : HeaderTrail before l) (inside : l.state ≠ .headerRnrn) :
    (turn after before curChar ahead l).Leads
      (fun skip next => skip = 0 ∧ HeaderTrail (before ++ [curChar]) next) (fun _ => True) := by
  obtain ⟨state, prevIt, remaining, req⟩ := l
  cases state <;> simp only [HeaderTrail] at trail
  case versionEndRn =>
    obtain ⟨line, read⟩ := trail
    simp only [turn]
    split
    · rename_i carriage
      refine ⟨rfl, line, read.good, ?_, read.read.line.append _⟩
      rw [read.bytes, carriage]
      simp [headerBytes]
    · split
      · rename_i plain
        exact ⟨rfl, line, [], before, [curChar], read, token_singleton (by simpa using plain), rfl,
          rfl⟩
      · trivial
  case versionEndRnr =>
    simp only [turn]
    split <;> trivial
  case headerStart =>
    obtain ⟨line, lines, start, name, read, isName, rfl, rfl⟩ := trail
    simp only [turn]
    split
    · rename_i colon
      exact ⟨rfl, line, lines, start, name, ⟨isName, req, read, rfl⟩, by rw [colon]⟩
    · rename_i notColon
      split
      · trivial
      · rename_i plain
        exact ⟨rfl, line, lines, start, name ++ [curChar], read,
          isName.snoc ⟨by simpa using plain, notColon⟩, by simp, rfl⟩
  case headerNameEnd =>
    obtain ⟨line, lines, start, name, named, rfl⟩ := trail
    simp only [turn]
    split
    · rename_i space
      refine ⟨rfl, line, lines, start, name, ⟨named.isName, named.stored⟩, ?_⟩
      rw [space]
      simp
    · rename_i notSpace
      split
      · trivial
      · rename_i plain
        refine ⟨rfl, line, lines, start, ⟨name, false, [curChar]⟩, ⟨named.isName, named.stored⟩,
          ⟨named.isName, token_singleton ⟨by simpa using plain, fun _ => notSpace⟩⟩, rfl, rfl⟩
  case headerNameValueSpace =>
    obtain ⟨line, lines, start, name, named, rfl⟩ := trail
    simp only [turn]
    split
    · rename_i plain
      refine ⟨rfl, line, lines, start, ⟨name, true, [curChar]⟩, ⟨named.isName, named.stored⟩,
        ⟨named.isName,
          token_singleton ⟨by simpa using plain, fun contra => absurd contra (by simp)⟩⟩,
        rfl, rfl⟩
    · trivial
  case headerValueStart =>
    obtain ⟨line, lines, start, header, named, good, split, starts⟩ := trail
    simp only [turn]
    split
    · rename_i carriage
      rw [carriage, List.append_assoc, List.cons_append]
      exact finishHeaderValue_headerTrail named good split starts rfl
    · split
      · trivial
      · rename_i plain
        refine ⟨rfl, line, lines, start, { header with value := header.value ++ [curChar] },
          ⟨named.isName, named.stored⟩, ⟨good.name, good.value.snoc (by simpa using plain)⟩, ?_,
          starts⟩
        rw [split]
        simp
  case headerR =>
    obtain ⟨head, done, same⟩ := trail
    simp only [turn]
    split
    · rename_i feed
      exact ⟨rfl, head, done.append _, by rw [feed, same]⟩
    · trivial
  case headerRn =>
    obtain ⟨head, done, same⟩ := trail
    simp only [turn]
    split
    · rename_i carriage
      exact ⟨rfl, head, done.append _, by rw [same, carriage]⟩
    · split
      · rename_i plain
        exact ⟨rfl, head.line, head.lines, before, [curChar], done.linesRead same,
          token_singleton (by simpa using plain), rfl, rfl⟩
      · trivial
  case headerRnr =>
    obtain ⟨head, done, same⟩ := trail
    simp only [turn]
    split
    · rename_i feed
      split
      · trivial
      · refine ⟨rfl, head, done.append _, ?_⟩
        rw [same, feed]
        simp [RequestHead.bytes]
    · trivial
  case headerRnrn => exact absurd rfl inside

/-! ### The trail of a multipart body -/

/-- A stretch of a part's body that the parser takes for data and a delimiter: it ends at the
first carriage return with a copy of the boundary before it. -/
def Cut (boundary text : List Byte) : Prop := Quiet boundary text ∧ Hit boundary text

/-- The lines of a part's info. -/
def infoBytes (lines : List (List Byte)) : List Byte := lines.flatMap (· ++ crlf)

/-- One or more info lines, none of them empty or with a control character. -/
def GoodInfo (lines : List (List Byte)) : Prop :=
  lines ≠ [] ∧ ∀ line ∈ lines, line ≠ [] ∧ ∀ byte ∈ line, Plain byte

/-- The bytes of a body up to the boundary text of a delimiter that another part follows. -/
inductive Delimited (boundary : List Byte) : List Byte → Prop
  | first : Delimited boundary (ascii "--" ++ boundary)
  | next {front text : List Byte} {lines : List (List Byte)} :
      Delimited boundary front → GoodInfo lines → Cut boundary text → boundary <:+ text →
      Delimited boundary (front ++ crlf ++ infoBytes lines ++ crlf ++ text)

/-- The bytes of a body up to the data of a part. -/
def DataStart (boundary before : List Byte) : Prop :=
  ∃ front lines, Delimited boundary front ∧ GoodInfo lines ∧
    before = front ++ crlf ++ infoBytes lines ++ crlf

/-- A head that announces a multipart body. -/
structure MultipartHead (head : RequestHead) (boundary : List Byte) : Prop where
  good : head.WellFormed
  method : HasBody head.line.method
  announced : boundaryOf head.lines = some boundary

/-- What has been read in each state of a multipart body. The body starts at `offset`. -/
def BodyTrail (boundary : List Byte) (offset : Nat) (body : List Byte) (l : Locals) : Prop :=
  match l.state with
  | .multipartDataStart => body = [chr '-']
  | .multipartDataStart' => body = ascii "--"
  | .boundaryMatchStart => ∃ token, Token Plain Plain token ∧ body = ascii "--" ++ token ∧
      l.prevIt = offset + 2
  | .boundaryMatchR => ∃ front, Delimited boundary front ∧ Token Plain Plain boundary ∧
      body = front ++ [CR]
  | .boundaryMatchRn => ∃ front, Delimited boundary front ∧ Token Plain Plain boundary ∧
      body = front ++ crlf
  | .partInfoStart => ∃ front lines token, Delimited boundary front ∧
      Token Plain Plain boundary ∧
      (∀ line ∈ lines, line ≠ [] ∧ ∀ byte ∈ line, Plain byte) ∧ Token Plain Plain token ∧
      body = front ++ crlf ++ infoBytes lines ++ token ∧ l.prevIt = offset + (front ++ crlf).length
  | .partInfoR => ∃ front lines, Delimited boundary front ∧ Token Plain Plain boundary ∧
      GoodInfo lines ∧ body ++ [LF] = front ++ crlf ++ infoBytes lines ∧
      l.prevIt = offset + (front ++ crlf).length
  | .partInfoRn => ∃ front lines, Delimited boundary front ∧ Token Plain Plain boundary ∧
      GoodInfo lines ∧ body = front ++ crlf ++ infoBytes lines ∧
      l.prevIt = offset + (front ++ crlf).length
  | .partInfoRnr => Token Plain Plain boundary ∧ DataStart boundary (body ++ [LF]) ∧
      l.req.parts ≠ []
  | .partInfoRnrn => Token Plain Plain boundary ∧ DataStart boundary body ∧ l.req.parts ≠ []
  | .partBodyStart => ∃ front text, Token Plain Plain boundary ∧ DataStart boundary front ∧
      text ≠ [] ∧ Quiet boundary text ∧ body = front ++ text ∧
      l.prevIt = offset + front.length ∧ l.req.parts ≠ []
  | .lastBoundaryMatch => True
  | _ => False

/-- A multipart head and a part of its body have been read. -/
def MultipartTrail (before : List Byte) (l : Locals) : Prop :=
  ∃ head boundary body, MultipartHead head boundary ∧ before = head.bytes ++ body ∧
    HeadRead head.line head.lines head.bytes l.remainingContentSize { l.req with parts := [] } ∧
    BodyTrail boundary head.bytes.length body l

theorem noLF_of_plain {boundary : List Byte} (token : Token Plain Plain boundary) :
    LF ∉ boundary := by
  intro member
  exact absurd (token.forall_mem LF member) (by decide)

theorem infoBytes_snoc (lines : List (List Byte)) (line : List Byte) :
    infoBytes (lines ++ [line]) = infoBytes lines ++ (line ++ crlf) := by
  simp [infoBytes]

theorem goodInfo_snoc {lines : List (List Byte)} {token : List Byte}
    (good : ∀ line ∈ lines, line ≠ [] ∧ ∀ byte ∈ line, Plain byte)
    (isToken : Token Plain Plain token) : GoodInfo (lines ++ [token]) := by
  refine ⟨by simp, fun line member => ?_⟩
  rcases List.mem_append.mp member with old | new
  · exact good line old
  · rw [List.mem_singleton.mp new]
    exact ⟨isToken.ne_nil, isToken.forall_mem⟩

/-- What a hit or a miss at a carriage return inside a part's body leads to. -/
theorem matchBoundaryBackwards_trail {head : RequestHead} {boundary front text : List Byte}
    (multipart : MultipartHead head boundary) (token : Token Plain Plain boundary)
    (read : HeadRead head.line head.lines head.bytes l.remainingContentSize
      { l.req with parts := [] })
    (starts : DataStart boundary front) (quiet : Quiet boundary text)
    (split : before = head.bytes ++ (front ++ text))
    (prevIt : l.prevIt = head.bytes.length + front.length) (parts : l.req.parts ≠ [])
    (state : l.state = .partBodyStart) :
    (matchBoundaryBackwards before before.length l).Leads
      (fun skip next => skip = 0 ∧ MultipartTrail (before ++ [CR]) next) (fun _ => True) := by
  obtain ⟨delimited, lines, isDelimited, goodInfo, sameFront⟩ := starts
  have shape : before = (head.bytes ++ (delimited ++ crlf ++ infoBytes lines ++ [CR])) ++
      LF :: text := by
    rw [split, sameFront]
    simp
  have denotes : l.req.partBoundary.text
      ((head.bytes ++ (delimited ++ crlf ++ infoBytes lines ++ [CR])) ++ LF :: text) =
        some boundary := by
    have denotesHead := read.boundary
    rw [multipart.announced] at denotesHead
    have grown := StringView.text_append denotesHead
      ((delimited ++ crlf ++ infoBytes lines ++ [CR]) ++ LF :: text)
    rw [← List.append_assoc] at grown
    exact grown
  have within : boundary.length ≤
      (head.bytes ++ (delimited ++ crlf ++ infoBytes lines ++ [CR])).length := by
    have inLines := length_le_of_boundaryOf multipart.announced
    rw [RequestHead.bytes]
    simp only [List.length_append]
    omega
  have noLF := noLF_of_plain token
  obtain ⟨stored, part, sameParts⟩ : ∃ stored part, l.req.parts = stored ++ [part] :=
    (List.eq_nil_or_concat' l.req.parts).resolve_left parts
  rw [shape]
  by_cases ends : boundary <:+ text
  · rw [matchBoundaryBackwards_boundary denotes within noLF sameParts ends]
    refine ⟨rfl, head, boundary, front ++ text ++ [CR], multipart, ?_, read, front ++ text, ?_,
      token,
      rfl⟩
    · rw [← shape, split]
      simp
    · rw [sameFront]
      exact .next isDelimited goodInfo ⟨quiet, Or.inl ends⟩ ends
  · by_cases dashed : boundary ++ ascii "--" <:+ text
    · rw [matchBoundaryBackwards_last denotes within noLF sameParts ends dashed]
      refine ⟨rfl, head, boundary, front ++ text ++ [CR], multipart, ?_, read, trivial⟩
      rw [← shape, split]
      simp
    · have miss : ¬ Hit boundary text := fun hit => hit.elim ends dashed
      obtain ⟨notes, turned, _⟩ := matchBoundaryBackwards_miss (l := l) denotes within noLF miss
      rw [turned]
      refine ⟨rfl, head, boundary, front ++ (text ++ [CR]), multipart, ?_, read, ?_⟩
      · rw [← shape, split]
        simp
      · rw [BodyTrail, state]
        exact ⟨front, text ++ [CR], token, ⟨delimited, lines, isDelimited, goodInfo, sameFront⟩,
          by simp, quiet.snoc fun _ => miss, rfl, prevIt, parts⟩

/-- A turn in a multipart body keeps its trail. -/
theorem turn_multipartTrail (trail : MultipartTrail before l) :
    (turn after before curChar ahead l).Leads
      (fun skip next => skip = 0 ∧ MultipartTrail (before ++ [curChar]) next) (fun _ => True) := by
  obtain ⟨head, boundary, body, multipart, rfl, read, trail⟩ := trail
  obtain ⟨state, prevIt, remaining, req⟩ := l
  have denotes := read.boundary
  rw [multipart.announced] at denotes
  have extend (next : Locals) (sameRemaining : next.remainingContentSize = remaining)
      (sameReq : { next.req with parts := [] } = { req with parts := [] })
      (trail' : BodyTrail boundary head.bytes.length (body ++ [curChar]) next) :
      MultipartTrail (head.bytes ++ body ++ [curChar]) next :=
    ⟨head, boundary, body ++ [curChar], multipart, by simp,
      by rw [sameRemaining, sameReq]; exact read,
      trail'⟩
  cases state <;> simp only [BodyTrail] at trail
  case multipartDataStart =>
    subst trail
    simp only [turn]
    split
    · rename_i dash
      exact ⟨rfl, extend _ rfl rfl (by rw [dash]; rfl)⟩
    · trivial
  case multipartDataStart' =>
    subst trail
    simp only [turn]
    split
    · trivial
    · rename_i plain
      refine ⟨rfl, extend _ rfl rfl ⟨[curChar], token_singleton (by simpa using plain), rfl, ?_⟩⟩
      simp [ascii]
  case boundaryMatchStart =>
    obtain ⟨token, isToken, rfl, rfl⟩ := trail
    simp only [turn]
    split
    · rename_i carriage
      split
      · rename_i compared
        have same : token = boundary := by
          refine (delimiter_same_iff denotes).mp ?_
          rw [← compared]
          simp [ascii]
        refine ⟨rfl, extend _ rfl rfl ⟨ascii "--" ++ token, ?_, same ▸ isToken, by rw [carriage]⟩⟩
        rw [same]
        exact .first
      · trivial
    · split
      · trivial
      · rename_i plain
        exact ⟨rfl, extend _ rfl rfl ⟨token ++ [curChar], isToken.snoc (by simpa using plain),
          by simp, rfl⟩⟩
  case boundaryMatchR =>
    obtain ⟨front, delimited, token, rfl⟩ := trail
    simp only [turn]
    split
    · rename_i feed
      exact ⟨rfl, extend _ rfl rfl ⟨front, delimited, token, by rw [feed]; simp⟩⟩
    · trivial
  case boundaryMatchRn =>
    obtain ⟨front, delimited, token, rfl⟩ := trail
    simp only [turn]
    split
    · rename_i plain
      refine ⟨rfl, extend _ rfl rfl ⟨front, [], [curChar], delimited, token,
        fun line member => absurd member List.not_mem_nil, token_singleton (by simpa using plain),
        by simp [infoBytes], ?_⟩⟩
      simp
    · trivial
  case partInfoStart =>
    obtain ⟨front, lines, token', delimited, token, good, isToken, rfl, rfl⟩ := trail
    simp only [turn]
    split
    · rename_i carriage
      refine ⟨rfl, extend _ rfl rfl ⟨front, lines ++ [token'], delimited, token,
        goodInfo_snoc good isToken, ?_, rfl⟩⟩
      rw [carriage, infoBytes_snoc]
      simp
    · split
      · trivial
      · rename_i plain
        exact ⟨rfl, extend _ rfl rfl ⟨front, lines, token' ++ [curChar], delimited, token, good,
          isToken.snoc (by simpa using plain), by simp, rfl⟩⟩
  case partInfoR =>
    obtain ⟨front, lines, delimited, token, good, same, rfl⟩ := trail
    simp only [turn]
    split
    · rename_i feed
      exact ⟨rfl, extend _ rfl rfl ⟨front, lines, delimited, token, good, by rw [feed, same], rfl⟩⟩
    · trivial
  case partInfoRn =>
    obtain ⟨front, lines, delimited, token, good, rfl, rfl⟩ := trail
    simp only [turn]
    split
    · rename_i carriage
      refine ⟨rfl, extend _ rfl rfl ⟨token, ⟨front, lines, delimited, good, ?_⟩, by simp⟩⟩
      rw [carriage]
      simp
    · split
      · rename_i plain
        exact ⟨rfl, extend _ rfl rfl ⟨front, lines, [curChar], delimited, token, good.2,
          token_singleton (by simpa using plain), by simp, rfl⟩⟩
      · trivial
  case partInfoRnr =>
    obtain ⟨token, starts, parts⟩ := trail
    simp only [turn]
    split
    · rename_i feed
      exact ⟨rfl, extend _ rfl rfl ⟨token, by rw [feed]; exact starts, parts⟩⟩
    · trivial
  case partInfoRnrn =>
    obtain ⟨token, starts, parts⟩ := trail
    simp only [turn]
    refine ⟨rfl, extend _ rfl rfl ⟨body, [curChar], token, starts, by simp, ?_, rfl, ?_, parts⟩⟩
    · exact (quiet_nil boundary).snoc fun _ => not_hit_nil token.ne_nil
    · simp
  case partBodyStart =>
    obtain ⟨front, text, token, starts, _, quiet, rfl, prevIt, parts⟩ := trail
    simp only [turn]
    split
    · rename_i carriage
      rw [carriage]
      exact matchBoundaryBackwards_trail multipart token read starts quiet rfl prevIt parts
        rfl
    · rename_i notCarriage
      refine ⟨rfl, extend _ rfl rfl ⟨front, text ++ [curChar], token, starts, by simp,
        quiet.snoc fun carriage => absurd carriage notCarriage, by simp, prevIt, parts⟩⟩
  case lastBoundaryMatch =>
    simp only [turn]
    split <;> trivial

/-! ### The trail of a run -/

/-- A head and a part of a body of fixed length have been read. -/
def FixedTrail (before : List Byte) (l : Locals) : Prop :=
  l.state = .postDataStart ∧ ∃ (head : RequestHead) (body : List Byte), head.WellFormed ∧
    HasBody head.line.method ∧ boundaryOf head.lines = none ∧ before = head.bytes ++ body

/-- What the parser has read where it is. -/
def Trail (size : UInt64) (before : List Byte) (l : Locals) : Prop :=
  (l.state.InLine ∧ OnlyLine size l ∧ LineTrail before l) ∨ HeaderTrail before l ∨
    FixedTrail before l ∨ MultipartTrail before l

/-- Where the header ends a body starts, and its kind is decided. -/
theorem turn_headerRnrn (trail : HeaderTrail before l) (state : l.state = .headerRnrn) :
    (turn after before curChar ahead l).Leads
      (fun skip next => skip = 0 ∧
        (FixedTrail (before ++ [curChar]) next ∨ MultipartTrail (before ++ [curChar]) next))
      (fun _ => True) := by
  obtain ⟨_, prevIt, remaining, req⟩ := l
  subst state
  obtain ⟨head, done, rfl⟩ := trail
  have method := same_method_iff done.read.line.method
  simp only [turn]
  split
  · rename_i compared
    have hasBody := method.mp compared
    split
    · rename_i single
      have noBoundary : boundaryOf head.lines = none := by
        have none := done.read.multipart
        rw [show req.isMultipart = false by simpa using single] at none
        exact Option.isNone_iff_eq_none.mp (by rw [← Option.not_isSome, ← none]; rfl)
      split
      · trivial
      · exact ⟨rfl, Or.inl ⟨rfl, head, [curChar], done.good, hasBody, noBoundary, rfl⟩⟩
    · rename_i several
      obtain ⟨boundary, announced⟩ : ∃ boundary, boundaryOf head.lines = some boundary := by
        refine Option.isSome_iff_exists.mp ?_
        rw [← done.read.multipart]
        simpa using several
      split
      · rename_i dash
        refine ⟨rfl, Or.inr ⟨head, boundary, [curChar], ⟨done.good, hasBody, announced⟩, rfl, ?_,
          by rw [dash]; rfl⟩⟩
        have none : req.parts = [] := done.read.parts
        rw [show ({ req with parts := [] } : Request) = req by rw [← none]]
        exact done.read
      · trivial
  · trivial

theorem inLine_of_lineTrail (trail : LineTrail before l) : l.state.InLine := by
  obtain ⟨state, prevIt, remaining, req⟩ := l
  cases state <;> simp_all [LineTrail, State.InLine]

theorem trail_start (size : UInt64) : Trail size [] (start (.fresh size)) :=
  Or.inl ⟨Or.inl rfl, ⟨rfl, _, _, _, rfl⟩, rfl, rfl⟩

/-- Every turn keeps the trail. -/
theorem turn_trail (trail : Trail size before l) :
    (turn after before curChar ahead l).Leads
      (fun skip next => skip = 0 ∧ Trail size (before ++ [curChar]) next) (fun _ => True) := by
  rcases trail with ⟨state, only, trail⟩ | trail | ⟨state, head, body, good, hasBody, none, split⟩ |
    trail
  · refine ((turn_lineTrail trail).and (turn_onlyLine only state)).mono ?_ fun _ _ => trivial
    rintro skip next ⟨⟨zero, inLine | ⟨state', line, good, same, read⟩⟩, none, stored⟩
    · exact ⟨zero, Or.inl ⟨inLine_of_lineTrail inLine, ⟨none, stored⟩, inLine⟩⟩
    · refine ⟨zero, Or.inr (Or.inl ?_)⟩
      rw [HeaderTrail, state']
      exact ⟨line, good, fun header member => absurd member List.not_mem_nil,
        by rw [same]; exact (List.append_nil _).symm, headRead_start read none stored⟩
  · by_cases state : l.state = .headerRnrn
    · refine (turn_headerRnrn trail state).mono ?_ fun _ _ => trivial
      rintro skip next ⟨zero, inBody⟩
      exact ⟨zero, Or.inr (Or.inr inBody)⟩
    · refine (turn_headerTrail trail state).mono ?_ fun _ _ => trivial
      rintro skip next ⟨zero, inHeader⟩
      exact ⟨zero, Or.inr (Or.inl inHeader)⟩
  · simp only [turn, state]
    split
    · trivial
    · refine ⟨rfl, Or.inr (Or.inr (Or.inl ⟨rfl, head, body ++ [curChar], good, hasBody, none, ?_⟩))⟩
      rw [split, List.append_assoc]
  · refine (turn_multipartTrail trail).mono ?_ fun _ _ => trivial
    rintro skip next ⟨zero, inBody⟩
    exact ⟨zero, Or.inr (Or.inr (Or.inr inBody))⟩

/-- Wherever a run stands, its trail is what it has read. -/
theorem trail_of_feed {read ahead : List Byte} {skip : Nat}
    (inside : feed (turn after) [] read ahead 0 (start (.fresh size)) = .inside skip l) :
    skip = 0 ∧ Trail size read l := by
  have leads : (feed (turn after) [] read ahead 0 (start (.fresh size))).Leads
      (fun skip l => skip = 0 ∧ Trail size ([] ++ read) l) (fun _ => True) :=
    feed_invariant_of_no_jump (Trail size) (trail_start size)
      fun _ _ _ _ _ trail => turn_trail trail
  rw [inside] at leads
  exact leads

end RequestParser

end Sheep
