/-
This file models `UriParser`: `parse` goes once over the buffer and leaves at the
first byte of a fragment; `parse_queries` goes over the query string it has found.
Both are loops with one switch over a state that they share.
-/

import Sheep.Bytes
import Sheep.ScanLoop

namespace Sheep

open ScanLoop

/-! ### Uris -/

namespace Uri

structure Query where
  name : StringView
  value : StringView
deriving DecidableEq, Repr

/-- A query in a text that lies elsewhere. -/
def Query.within (text : List Byte) (query : Query) : Query where
  name := .elsewhere ((query.name.text text).getD [])
  value := .elsewhere ((query.value.text text).getD [])

end Uri

structure Uri where
  scheme : StringView := .empty
  username : StringView := .empty
  password : StringView := .empty
  hostname : StringView := .empty
  portstr : StringView := .empty
  port : UInt16 := 80
  path : StringView := .empty
  querystr : StringView := .empty
  queries : List Uri.Query := []
  fragment : StringView := .empty
deriving DecidableEq, Repr

def Uri.fresh : Uri := {}

inductive UriParseResult
  | incompleted
  | completed
  | error
deriving DecidableEq, Repr

namespace UriParser

inductive State
  | schemeStart
  | schemeEnd
  | schemeEndSlash
  | schemeEndSlashSlash
  | usernameOrHostname
  | portOrPasswordStart
  | portOrPassword
  | hostnameStart
  | hostname
  | password
  | portStart
  | port
  | path
  | queryStart
  | query
  | hashStart
  | hash
  | newQueryStart
  | queryName
  | queryValueStart
  | queryValue
deriving DecidableEq, Repr

/-- What `parse` returns, with the uri it leaves behind. -/
structure Outcome where
  verdict : UriParseResult
  uri : Uri
deriving DecidableEq, Repr

/-- `is_unreserved`. -/
def isUnreserved (byte : Byte) : Bool :=
  isAlnum byte ||
    (byte == chr '-' || byte == chr '.' || byte == chr '_' || byte == chr '~')

/-- `is_all_digit`. -/
def isAllDigit (text : List Byte) : Bool := text.all isDigit

/-! ### Queries -/

/-- The variables of the loop in `parse_queries`. -/
structure QueryLocals where
  state : State
  prevIt : Int
  queryName : StringView
  uri : Uri
deriving DecidableEq, Repr

/-- The loop body of `parse_queries`. The query string starts at `offset`. -/
def queryTurn (offset : Int) : Body Byte QueryLocals Outcome StringView :=
  fun before curChar _ l =>
    let it : Int := offset + before.length
    let error : Turn QueryLocals Outcome StringView := .leave ⟨.error, l.uri⟩
    let plain := isUnreserved curChar || curChar == chr '%'
    match l.state with
    | .queryName =>
        if plain then .go l
        else if curChar = chr '=' then
          .go { l with state := .queryValueStart, queryName := .range l.prevIt it }
        else error
    | .queryValueStart =>
        if plain then .go { l with state := .queryValue, prevIt := it }
        else error
    | .queryValue =>
        if plain then .go l
        else if curChar = chr '&' then
          .go { l with
            state := .newQueryStart
            uri := { l.uri with queries := l.uri.queries ++ [⟨l.queryName, .range l.prevIt it⟩] } }
        else error
    | .newQueryStart =>
        if plain then .go { l with state := .queryName, prevIt := it }
        else error
    | _ => error

/-- After the last byte of the query string. -/
def queryEnd (last : Int) (l : QueryLocals) : Outcome :=
  if l.state = .queryValue then
    ⟨.completed, { l.uri with
      queries := l.uri.queries ++ [⟨l.queryName, .range l.prevIt last⟩] }⟩
  else ⟨.error, l.uri⟩

/-- The loop of `parse_queries` over a query string that starts at `offset`. -/
def parseQueryText (offset : Int) (text : List Byte) (uri : Uri) : Outcome :=
  match text with
  | [] => ⟨.completed, uri⟩
  | first :: _ =>
      if !isUnreserved first && first ≠ chr '%' then ⟨.error, uri⟩
      else
        run (queryTurn offset) (queryEnd (offset + text.length)) (queryEnd (offset + text.length))
          text { state := .queryName, prevIt := offset, queryName := .empty, uri }

/-- `parse_queries`. The query string lies in the buffer, or elsewhere if it is an old one. -/
def parseQueries (buf : List Byte) (uri : Uri) : Outcome :=
  match uri.querystr with
  | .range first last =>
      parseQueryText first (((StringView.range first last).text buf).getD []) uri
  | .elsewhere text =>
      let outcome := parseQueryText 0 text { uri with queries := [] }
      { outcome with
        uri := { uri with queries := uri.queries ++ outcome.uri.queries.map (.within text) } }

theorem parseQueries_empty {buf : List Byte} {uri : Uri} (empty : uri.querystr = .empty) :
    parseQueries buf uri = ⟨.completed, uri⟩ := by
  obtain ⟨scheme, username, password, hostname, portstr, port, path, querystr, queries, fragment⟩ :=
    uri
  cases empty
  show Outcome.mk .completed _ = _
  rw [parseQueryText, List.map_nil, List.append_nil]

/-- A query string in the buffer is parsed where it stands. -/
theorem parseQueries_range {buf before query after : List Byte} {uri : Uri}
    (split : buf = before ++ query ++ after)
    (place : uri.querystr = .range before.length (before ++ query).length) :
    parseQueries buf uri = parseQueryText before.length query uri := by
  rw [parseQueries, place]
  show parseQueryText _ ((StringView.text _ _).getD []) _ = _
  rw [StringView.text_range before query after split rfl rfl, Option.getD_some]

/-! ### Uris -/

/-- The variables of the loop in `parse`. -/
structure Locals where
  state : State
  prevIt : Int
  uri : Uri
deriving DecidableEq, Repr

abbrev ParseTurn := Turn Locals Outcome StringView

/-- A port ends at a slash, and the path starts there. -/
def finishPort (memory before : List Byte) (it : Int) (l : Locals) : ParseTurn :=
  let portstr := StringView.range l.prevIt it
  if isAllDigit ((portstr.text before).getD []) then
    .go { l with
      state := .path
      prevIt := it
      uri := { l.uri with
        portstr, port := UInt16.ofInt (atoi (memory.drop l.prevIt.toNat)) } }
  else .leave ⟨.error, { l.uri with portstr }⟩

/-- The loop body of `parse`. `after` is the memory that follows the buffer. -/
def turn (after : List Byte) : Body Byte Locals Outcome StringView :=
  fun before curChar ahead l =>
    let it : Int := before.length
    let buf := before ++ curChar :: ahead
    let error : ParseTurn := .leave ⟨.error, l.uri⟩
    let view := StringView.range l.prevIt it
    match l.state with
    | .schemeStart =>
        if isAlnum curChar || curChar = chr '+' || curChar = chr '-' || curChar = chr '.' then .go l
        else if curChar = chr ':' then
          .go { l with state := .schemeEnd, uri := { l.uri with scheme := view } }
        else error
    | .schemeEnd =>
        if curChar = chr '/' then .go { l with state := .schemeEndSlash }
        else if isAlnum curChar then .go { l with state := .usernameOrHostname, prevIt := it }
        else error
    | .schemeEndSlash =>
        if curChar = chr '/' then .go { l with state := .schemeEndSlashSlash }
        else if isAlnum curChar then .go { l with state := .usernameOrHostname, prevIt := it }
        else error
    | .schemeEndSlashSlash =>
        if isAlnum curChar then .go { l with state := .usernameOrHostname, prevIt := it }
        else error
    | .usernameOrHostname =>
        if isUnreserved curChar || curChar = chr '%' then .go l
        else if curChar = chr ':' then
          .go { l with state := .portOrPasswordStart, uri := { l.uri with username := view } }
        else if curChar = chr '@' then
          .go { l with state := .hostnameStart, uri := { l.uri with username := view } }
        else if curChar = chr '/' then
          .go { l with state := .path, prevIt := it, uri := { l.uri with hostname := view } }
        else error
    | .portOrPasswordStart =>
        if isUnreserved curChar then .go { l with state := .portOrPassword, prevIt := it }
        else error
    | .portOrPassword =>
        if isDigit curChar then .go l
        else if curChar = chr '/' then
          finishPort (buf ++ after) before it { l with
            uri := { l.uri with hostname := l.uri.username, username := l.uri.hostname } }
        else if isAlnum curChar || curChar = chr '%' then .go { l with state := .password }
        else if curChar = chr '@' then
          .go { l with state := .hostnameStart, uri := { l.uri with password := view } }
        else error
    | .password =>
        if isAlnum curChar || curChar = chr '%' then .go l
        else if curChar = chr '@' then
          .go { l with state := .hostnameStart, uri := { l.uri with password := view } }
        else error
    | .hostnameStart =>
        if isUnreserved curChar || curChar = chr '%' then
          .go { l with state := .hostname, prevIt := it }
        else error
    | .hostname =>
        if isUnreserved curChar || curChar = chr '%' then .go l
        else if curChar = chr ':' then
          .go { l with state := .portStart, uri := { l.uri with hostname := view } }
        else if curChar = chr '/' then
          .go { l with state := .path, prevIt := it, uri := { l.uri with hostname := view } }
        else error
    | .portStart =>
        if isDigit curChar then .go { l with state := .port, prevIt := it }
        else error
    | .port =>
        if isDigit curChar then .go l
        else if curChar = chr '/' then finishPort (buf ++ after) before it l
        else error
    | .path =>
        if curChar = chr '#' then
          .go { l with state := .hashStart, uri := { l.uri with path := view } }
        else if curChar = chr '?' then
          .go { l with state := .queryStart, uri := { l.uri with path := view } }
        else .go l
    | .hashStart =>
        .leave (parseQueries buf { l.uri with fragment := .range it buf.length })
    | .queryStart => .go { l with state := .query, prevIt := it }
    | .query =>
        if curChar = chr '#' then
          .go { l with state := .hashStart, uri := { l.uri with querystr := view } }
        else .go l
    | .hash | .newQueryStart | .queryName | .queryValueStart | .queryValue => error

/-- After the last byte: what is still empty takes the rest. -/
def finish (buf : List Byte) (l : Locals) : Outcome :=
  let rest := StringView.range l.prevIt buf.length
  if l.uri.path.size = 0 then ⟨.completed, { l.uri with path := rest }⟩
  else if l.uri.querystr.size = 0 then parseQueries buf { l.uri with querystr := rest }
  else ⟨.incompleted, l.uri⟩

/-- `UriParser::parse`. The loop never jumps. -/
def parse (after : List Byte) (uri : Uri) (buf : List Byte) : Outcome :=
  run (turn after) (finish buf) (finish buf) buf { state := .schemeStart, prevIt := 0, uri }

end UriParser

end Sheep
