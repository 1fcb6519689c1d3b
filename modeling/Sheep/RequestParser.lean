/-
This file models `RequestParser::parse`: one loop over the buffer, one switch
over the state per byte. The views the parser compares or stores are noted with
each turn, and an access the language does not define ends the loop as
`undefined`.
-/

import Sheep.Bytes
import Sheep.ScanLoop

namespace Sheep

open ScanLoop

/-! ### Requests -/

namespace Request

structure Header where
  name : StringView := .empty
  value : StringView := .empty
deriving DecidableEq, Repr

structure Part where
  info : StringView := .empty
  data : StringView := .empty
deriving DecidableEq, Repr

end Request

/-- The fields of `http::Request` the parser works on. -/
structure Request where
  method : StringView := .empty
  uri : StringView := .empty
  version : StringView := .empty
  headers : List Request.Header := []
  content : StringView := .empty
  contentSize : UInt64
  isMultipart : Bool
  partBoundary : StringView := .empty
  parts : List Request.Part := []
deriving DecidableEq, Repr

namespace Request

/-- A fresh request: all fields empty and not multipart. The constructor leaves `content_size`
indeterminate. -/
def fresh (contentSize : UInt64) : Request := { contentSize, isMultipart := false }

/-- Write `last_header().value`; undefined on an empty vector. -/
def setLastValue (request : Request) (value : StringView) : Option (Header × Request) :=
  request.headers.getLast?.map fun header =>
    ({ header with value },
      { request with headers := request.headers.dropLast ++ [{ header with value }] })

/-- Write `last_part().data`; undefined on an empty vector. -/
def setLastData (request : Request) (data : StringView) : Option Request :=
  request.parts.getLast?.map fun part =>
    { request with parts := request.parts.dropLast ++ [{ part with data }] }

/-- Every view a request stores. -/
def views (request : Request) : List StringView :=
  [request.method, request.uri, request.version, request.content, request.partBoundary] ++
    request.headers.flatMap (fun header => [header.name, header.value]) ++
    request.parts.flatMap (fun part => [part.info, part.data])

end Request

inductive RequestParseResult
  | inCompleted
  | completed
  | error
deriving DecidableEq, Repr

namespace RequestParser

inductive State
  | methodUnstart
  | methodStart
  | methodEnd
  | uriStart
  | uriEnd
  | httpStart
  | httpEnd
  | versionStart
  | versionEnd
  | versionEndR
  | versionEndRn
  | versionEndRnr
  | versionEndRnrn
  | headerStart
  | headerNameEnd
  | headerNameValueSpace
  | headerValueStart
  | headerR
  | headerRn
  | headerRnr
  | headerRnrn
  | postDataStart
  | multipartDataStart
  | multipartDataStart'
  | boundaryMatchStart
  | boundaryMatchR
  | boundaryMatchRn
  | partInfoStart
  | partInfoR
  | partInfoRn
  | partInfoRnr
  | partInfoRnrn
  | partBodyStart
  | lastBoundaryMatch
deriving DecidableEq, Repr

/-- How `parse` ends: with a verdict, or in an access the language does not define. -/
inductive Outcome
  | returned (verdict : RequestParseResult) (request : Request)
  | undefined (request : Request)
deriving DecidableEq, Repr

namespace Outcome

def request : Outcome → Request
  | .returned _ request => request
  | .undefined request => request

def verdict : Outcome → Option RequestParseResult
  | .returned verdict _ => some verdict
  | .undefined _ => none

end Outcome

/-- The variables of the loop. -/
structure Locals where
  state : State
  prevIt : Int
  remainingContentSize : UInt64
  req : Request
deriving DecidableEq, Repr

/-- `is_http_control(int ch)`: bytes from `0x80` on are negative, hence no controls. -/
def isHttpControl (byte : Byte) : Bool :=
  decide ((0 ≤ signedChar byte ∧ signedChar byte ≤ 31) ∨ signedChar byte = 127)

/-- `is_multipart_in_header_value`. -/
def isMultipartInHeaderValue (value : List Byte) : Bool :=
  (find (ascii "multipart/form-data") value).isSome

/-- `find_boundary`. The result of `find` is added to the iterator unchecked, so `npos` counts
as minus one. -/
def findBoundary (text : List Byte) (first last : Int) : StringView :=
  let pos : Int := match find (ascii "boundary=") text with
    | some pos => pos
    | none => -1
  .range (first + pos + 9) last

abbrev ParseTurn := Turn Locals Outcome StringView

/-- What happens at the `'\r'` that ends a header value. -/
def finishHeaderValue (memory before : List Byte) (it : Int) (l : Locals) : ParseTurn :=
  let value := StringView.range l.prevIt it
  match l.req.setLastValue value with
  | none => .leave (.undefined l.req) [value]
  | some (header, req) =>
      let text := (value.text before).getD []
      if header.name.same before (.elsewhere (ascii "Content-Type")) &&
          isMultipartInHeaderValue text then
        let boundary := findBoundary text l.prevIt it
        .go { l with
          state := .headerR
          req := { req with isMultipart := true, partBoundary := boundary } }
          [value, header.name, boundary]
      else if header.name.same before (.elsewhere (ascii "Content-Length")) then
        let size := UInt64.ofInt (atoi (memory.drop l.prevIt.toNat))
        .go { l with
          state := .headerR
          remainingContentSize := size
          req := { req with contentSize := size } }
          [value, header.name]
      else .go { l with state := .headerR, req } [value, header.name]

/-- What happens at a `'\r'` inside a part's body: the bytes before it are compared with the
boundary, and then those before a final `--`. -/
def matchBoundaryBackwards (before : List Byte) (it : Int) (l : Locals) : ParseTurn :=
  let boundary := l.req.partBoundary
  let start := it - boundary.size
  let candidate := StringView.range start it
  if candidate.same before boundary then
    let data := StringView.range l.prevIt (start - 4)
    match l.req.setLastData data with
    | none => .leave (.undefined l.req) [candidate, boundary, data]
    | some req => .go { l with state := .boundaryMatchR, req } [candidate, boundary, data]
  else if before.getLast? = some (chr '-') ∧ before.dropLast.getLast? = some (chr '-') then
    let shifted := StringView.range (start - 2) (it - 2)
    if shifted.same before boundary then
      let data := StringView.range l.prevIt (start - 6)
      match l.req.setLastData data with
      | none => .leave (.undefined l.req) [candidate, shifted, boundary, data]
      | some req =>
          .go { l with state := .lastBoundaryMatch, req } [candidate, shifted, boundary, data]
    else .go l [candidate, shifted, boundary]
  else .go l [candidate, boundary]

/-- The loop body of `parse`. `after` is the memory that follows the buffer. -/
def turn (after : List Byte) : Body Byte Locals Outcome StringView :=
  fun before curChar ahead l =>
    let it : Int := before.length
    let error : ParseTurn := .leave (.returned .error l.req)
    match l.state with
    | .methodUnstart =>
        if !isAlpha curChar then error
        else .go { l with state := .methodStart }
    | .methodStart =>
        if curChar = SP then
          .go { l with state := .methodEnd, req := { l.req with method := .range l.prevIt it } }
            [.range l.prevIt it]
        else if !isAlpha curChar then error
        else .go l
    | .methodEnd =>
        if isHttpControl curChar then error
        else .go { l with state := .uriStart, prevIt := it }
    | .uriStart =>
        if curChar = SP then
          .go { l with state := .uriEnd, req := { l.req with uri := .range l.prevIt it } }
            [.range l.prevIt it]
        else if isHttpControl curChar then error
        else .go l
    | .uriEnd =>
        if curChar = chr 'H' then .go { l with state := .httpStart, prevIt := it }
        else error
    | .httpStart =>
        if curChar = chr '/' then
          if (StringView.range l.prevIt it).same before (.elsewhere (ascii "HTTP")) then
            .go { l with state := .httpEnd } [.range l.prevIt it]
          else .leave (.returned .error l.req) [.range l.prevIt it]
        else if !isAlpha curChar then error
        else .go l
    | .httpEnd =>
        if isDigit curChar then .go { l with state := .versionStart, prevIt := it }
        else error
    | .versionStart =>
        if curChar = CR then
          .go { l with
            state := .versionEndR
            req := { l.req with version := .range l.prevIt it } } [.range l.prevIt it]
        else if !isDigit curChar && curChar ≠ chr '.' then error
        else .go l
    | .versionEndR =>
        if curChar = LF then .go { l with state := .versionEndRn }
        else error
    | .versionEndRn =>
        if curChar = CR then .go { l with state := .versionEndRnr }
        else if !isHttpControl curChar then .go { l with state := .headerStart, prevIt := it }
        else error
    | .versionEndRnr =>
        if curChar = LF then .leave (.returned .completed l.req)
        else error
    | .headerStart =>
        if curChar = chr ':' then
          .go { l with
            state := .headerNameEnd
            req := { l.req with
              headers := l.req.headers ++ [{ name := .range l.prevIt it }] } }
            [.range l.prevIt it]
        else if isHttpControl curChar then error
        else .go l
    | .headerNameEnd =>
        if curChar = SP then .go { l with state := .headerNameValueSpace }
        else if isHttpControl curChar then error
        else .go { l with state := .headerValueStart, prevIt := it }
    | .headerNameValueSpace =>
        if !isHttpControl curChar then .go { l with state := .headerValueStart, prevIt := it }
        else error
    | .headerValueStart =>
        if curChar = CR then
          finishHeaderValue (before ++ curChar :: ahead ++ after) before it l
        else if isHttpControl curChar then error
        else .go l
    | .headerR =>
        if curChar = LF then .go { l with state := .headerRn }
        else error
    | .headerRn =>
        if curChar = CR then .go { l with state := .headerRnr }
        else if !isHttpControl curChar then .go { l with state := .headerStart, prevIt := it }
        else error
    | .headerRnr =>
        if curChar = LF then
          -- `it + 1 == buf.end()`
          if ahead = [] then .leave (.returned .completed l.req)
          else .go { l with state := .headerRnrn }
        else error
    | .headerRnrn =>
        if l.req.method.same before (.elsewhere (ascii "POST")) ||
            l.req.method.same before (.elsewhere (ascii "PUT")) then
          if !l.req.isMultipart then
            let remaining := l.remainingContentSize - 1
            if remaining = 0 then
              .leave (.returned .completed { l.req with content := .range it (it + 1) })
                [l.req.method, .range it (it + 1)]
            else
              .go { l with
                state := .postDataStart
                prevIt := it
                remainingContentSize := remaining } [l.req.method]
          else if curChar = chr '-' then
            .go { l with state := .multipartDataStart, prevIt := it } [l.req.method]
          else .leave (.returned .error l.req) [l.req.method]
        else .leave (.returned .completed l.req) [l.req.method]
    | .postDataStart =>
        let remaining := l.remainingContentSize - 1
        if remaining = 0 then
          .leave (.returned .completed { l.req with content := .range l.prevIt (it + 1) })
            [.range l.prevIt (it + 1)]
        else .go { l with remainingContentSize := remaining }
    | .multipartDataStart =>
        if curChar = chr '-' then .go { l with state := .multipartDataStart' }
        else error
    | .multipartDataStart' =>
        if isHttpControl curChar then error
        else .go { l with state := .boundaryMatchStart, prevIt := it }
    | .boundaryMatchStart =>
        if curChar = CR then
          if (StringView.range l.prevIt it).same before l.req.partBoundary then
            .go { l with state := .boundaryMatchR } [.range l.prevIt it, l.req.partBoundary]
          else .leave (.returned .error l.req) [.range l.prevIt it, l.req.partBoundary]
        else if isHttpControl curChar then error
        else .go l
    | .lastBoundaryMatch =>
        if curChar = LF then .leave (.returned .completed l.req)
        else error
    | .boundaryMatchR =>
        if curChar = LF then .go { l with state := .boundaryMatchRn }
        else error
    | .boundaryMatchRn =>
        if !isHttpControl curChar then .go { l with state := .partInfoStart, prevIt := it }
        else error
    | .partInfoStart =>
        if curChar = CR then .go { l with state := .partInfoR }
        else if isHttpControl curChar then error
        else .go l
    | .partInfoR =>
        if curChar = LF then .go { l with state := .partInfoRn }
        else error
    | .partInfoRn =>
        if curChar = CR then
          .go { l with
            state := .partInfoRnr
            req := { l.req with
              parts := l.req.parts ++ [{ info := .range l.prevIt (it - 2) }] } }
            [.range l.prevIt (it - 2)]
        else if !isHttpControl curChar then .go { l with state := .partInfoStart }
        else error
    | .partInfoRnr =>
        if curChar = LF then .go { l with state := .partInfoRnrn }
        else error
    | .partInfoRnrn => .go { l with state := .partBodyStart, prevIt := it }
    | .partBodyStart =>
        if curChar = CR then matchBoundaryBackwards before it l
        else .go l
    | .versionEnd | .versionEndRnrn => error

/-- The variables before the first byte. -/
def start (req : Request) : Locals :=
  { state := .methodUnstart, prevIt := 0, remainingContentSize := 0, req }

/-- `RequestParser::parse`. The loop never jumps, so it cannot overrun the buffer. -/
def parse (after : List Byte) (req : Request) (buf : List Byte) : Outcome :=
  run (turn after) (fun l => .returned .inCompleted l.req) (fun l => .undefined l.req) buf
    (start req)

end RequestParser

end Sheep
