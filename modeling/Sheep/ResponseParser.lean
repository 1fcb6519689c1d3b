/-
This file models `ResponseParser::parse`. It is a loop of the same shape as the
request parser's, but it also moves its iterator over the data of a chunk at
once, converts chunk sizes with a function that may throw, and takes bytes from
`0x80` on for control characters.
-/

import Sheep.Bytes
import Sheep.ScanLoop

namespace Sheep

open ScanLoop

/-! ### Responses -/

namespace Response

structure Header where
  name : StringView
  value : StringView
deriving DecidableEq, Repr

structure Chunk where
  size : Int
  data : StringView
deriving DecidableEq, Repr

end Response

structure Response where
  statusCode : Int := 0
  codestr : StringView := .empty
  status : StringView := .empty
  version : StringView := .empty
  headers : List Response.Header := []
  contentLength : Int := 0
  content : StringView := .empty
  isChunked : Bool := false
  chunks : List Response.Chunk := []
deriving DecidableEq, Repr

namespace Response

def fresh : Response := {}

/-- Every view a response stores. -/
def views (response : Response) : List StringView :=
  [response.codestr, response.status, response.version, response.content] ++
    response.headers.flatMap (fun header => [header.name, header.value]) ++
    response.chunks.map (·.data)

end Response

inductive ResponseParseResult
  | inCompleted
  | completed
  | error
deriving DecidableEq, Repr

namespace ResponseParser

inductive State
  | statusStart
  | statusStartH
  | statusStartHt
  | statusStartHtt
  | statusStartHttp
  | httpEnd
  | versionStart
  | versionEnd
  | statusCodeStart
  | statusCodeEnd
  | statusMsgStart
  | statusMsg
  | statusMsgEnd
  | statusMsgEndRn
  | statusMsgEndRnr
  | headerName
  | headerNameEnd
  | headerNameValueSpace
  | headerValueStart
  | headerR
  | headerRn
  | headerRnr
  | dataStart
  | newChunkStart
  | chunkDataSize
  | chunkDataSizeR
  | chunkDataSizeRn
  | chunkDataEnd
  | chunkDataR
  | zeroChunkSizeR
deriving DecidableEq, Repr

/-- How `parse` ends: with a verdict, with an exception from `stoi`, or with the iterator moved
beyond the end of the buffer. -/
inductive Outcome
  | returned (verdict : ResponseParseResult) (response : Response)
  | threw (response : Response)
  | overran (response : Response)
deriving DecidableEq, Repr

namespace Outcome

def response : Outcome → Response
  | .returned _ response => response
  | .threw response => response
  | .overran response => response

def verdict : Outcome → Option ResponseParseResult
  | .returned verdict _ => some verdict
  | .threw _ => none
  | .overran _ => none

end Outcome

/-- The variables of the loop. The `contentLength` of a header stays here; the field of the
response is not written. -/
structure Locals where
  state : State
  prevIt : Int
  headerName : StringView
  contentLength : Int
  newChunkSize : Int
  res : Response
deriving DecidableEq, Repr

/-- `is_http_control(char ch)`: bytes from `0x80` on are negative, hence controls. -/
def isHttpControl (byte : Byte) : Bool :=
  decide (signedChar byte ≤ 31 ∨ signedChar byte = 127)

/-- `is_all_digit`. -/
def isAllDigit (text : List Byte) : Bool := text.all isDigit

abbrev ParseTurn := Turn Locals Outcome StringView

/-- What happens at the `'\r'` that ends a header value. -/
def finishHeaderValue (memory before : List Byte) (it : Int) (l : Locals) : ParseTurn :=
  let value := StringView.range l.prevIt it
  let res := { l.res with headers := l.res.headers ++ [{ name := l.headerName, value }] }
  if l.headerName.same before (.elsewhere (ascii "Transfer-Encoding")) &&
      value.same before (.elsewhere (ascii "chunked")) then
    .go { l with state := .headerR, res := { res with isChunked := true } } [l.headerName, value]
  else if l.headerName.same before (.elsewhere (ascii "Content-Length")) then
    .go { l with
      state := .headerR
      contentLength := atoi (memory.drop l.prevIt.toNat)
      res } [l.headerName, value]
  else .go { l with state := .headerR, res } [l.headerName, value]

/-- What happens at the first byte of a chunk's data. `size` bytes of the buffer are left, the
current one included. -/
def takeChunk (it left : Int) (l : Locals) : ParseTurn :=
  if left > l.newChunkSize then
    let data := StringView.range it (it + l.newChunkSize)
    .jump (l.newChunkSize - 1).toNat { l with
      state := .chunkDataEnd
      res := { l.res with chunks := l.res.chunks ++ [{ size := l.newChunkSize, data }] } } [data]
  else .leave (.returned .error l.res)

/-- The loop body of `parse`. `after` is the memory that follows the buffer. -/
def turn (after : List Byte) : Body Byte Locals Outcome StringView :=
  fun before curChar ahead l =>
    let it : Int := before.length
    let memory := before ++ curChar :: ahead ++ after
    let error : ParseTurn := .leave (.returned .error l.res)
    match l.state with
    | .statusStart =>
        if curChar ≠ chr 'H' then error
        else .go { l with state := .statusStartH }
    | .statusStartH =>
        if curChar = chr 'T' then .go { l with state := .statusStartHt }
        else error
    | .statusStartHt =>
        if curChar = chr 'T' then .go { l with state := .statusStartHtt }
        else error
    | .statusStartHtt =>
        if curChar = chr 'P' then .go { l with state := .statusStartHttp }
        else error
    | .statusStartHttp =>
        if curChar = chr '/' then .go { l with state := .httpEnd }
        else error
    | .httpEnd =>
        if isDigit curChar then .go { l with state := .versionStart, prevIt := it }
        else error
    | .versionStart =>
        if isDigit curChar || curChar = chr '.' then .go l
        else if curChar = SP then
          .go { l with
            state := .versionEnd
            res := { l.res with version := .range l.prevIt it } } [.range l.prevIt it]
        else error
    | .versionEnd =>
        if isDigit curChar then .go { l with state := .statusCodeStart, prevIt := it }
        else error
    | .statusCodeStart =>
        if isDigit curChar then .go l
        else if curChar = SP then
          let codestr := StringView.range l.prevIt it
          let res := { l.res with codestr }
          if isAllDigit ((codestr.text before).getD []) then
            .go { l with
              state := .statusCodeEnd
              res := { res with statusCode := atoi (memory.drop l.prevIt.toNat) } } [codestr]
          else .leave (.returned .error res) [codestr]
        else error
    | .statusCodeEnd =>
        if !isHttpControl curChar then .go { l with state := .statusMsgStart, prevIt := it }
        else error
    | .statusMsgStart =>
        if !isHttpControl curChar then .go { l with state := .statusMsg }
        else error
    | .statusMsg =>
        if curChar = CR then
          .go { l with
            state := .statusMsgEnd
            res := { l.res with status := .range l.prevIt it } } [.range l.prevIt it]
        else if isHttpControl curChar then error
        else .go l
    | .statusMsgEnd =>
        if curChar = LF then .go { l with state := .statusMsgEndRn }
        else error
    | .statusMsgEndRn =>
        if curChar = CR then .go { l with state := .statusMsgEndRnr }
        else if isAlnum curChar then .go { l with state := .headerName, prevIt := it }
        -- any other byte is skipped
        else .go l
    | .statusMsgEndRnr =>
        if curChar = LF then .leave (.returned .completed l.res)
        else error
    | .headerName =>
        if curChar = chr ':' then
          .go { l with state := .headerNameEnd, headerName := .range l.prevIt it }
            [.range l.prevIt it]
        else if isHttpControl curChar then error
        else .go l
    | .headerNameEnd =>
        if curChar = SP then .go { l with state := .headerNameValueSpace }
        else if !isHttpControl curChar then .go { l with state := .headerValueStart, prevIt := it }
        else error
    | .headerNameValueSpace =>
        if !isHttpControl curChar then .go { l with state := .headerValueStart, prevIt := it }
        else error
    | .headerValueStart =>
        if !isHttpControl curChar then .go l
        else if curChar = CR then finishHeaderValue memory before it l
        else error
    | .headerR =>
        if curChar = LF then .go { l with state := .headerRn }
        else error
    | .headerRn =>
        if curChar = CR then .go { l with state := .headerRnr }
        else if !isHttpControl curChar then .go { l with state := .headerName, prevIt := it }
        else error
    | .headerRnr =>
        if curChar = LF then
          if l.res.isChunked then .go { l with state := .newChunkStart }
          else .go { l with state := .dataStart }
        else error
    | .dataStart =>
        let content := StringView.range it (it + l.contentLength)
        .leave (.returned .completed { l.res with content }) [content]
    | .newChunkStart =>
        if isHexChar curChar then .go { l with state := .chunkDataSize, prevIt := it }
        else error
    | .chunkDataSize =>
        if isHexChar curChar then .go l
        else if curChar = CR then
          match stoi16 (memory.drop l.prevIt.toNat) with
          | none => .leave (.threw l.res)
          | some size =>
              if size ≠ 0 then .go { l with state := .chunkDataSizeR, newChunkSize := size }
              else .go { l with state := .zeroChunkSizeR, newChunkSize := size }
        else error
    | .zeroChunkSizeR =>
        if curChar = LF then .leave (.returned .completed l.res)
        else error
    | .chunkDataSizeR =>
        if curChar = LF then .go { l with state := .chunkDataSizeRn }
        else error
    | .chunkDataSizeRn => takeChunk it (ahead.length + 1) l
    | .chunkDataEnd =>
        if curChar = CR then .go { l with state := .chunkDataR }
        else error
    | .chunkDataR =>
        if curChar = LF then .go { l with state := .newChunkStart }
        else error

/-- The variables before the first byte. -/
def start (res : Response) : Locals :=
  { state := .statusStart, prevIt := 0, headerName := .empty, contentLength := 0,
    newChunkSize := 0, res }

/-- `ResponseParser::parse`. -/
def parse (after : List Byte) (res : Response) (buf : List Byte) : Outcome :=
  run (turn after) (fun l => .returned .inCompleted l.res) (fun l => .overran l.res) buf (start res)

end ResponseParser

end Sheep
