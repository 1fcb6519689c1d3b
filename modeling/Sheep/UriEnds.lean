/-
This file says what becomes of a uri by what stands behind its path. A query or a
fragment that is announced must be there: a mark at the end of the buffer makes the
parser take the component before it for a query string, so that no uri with an empty
query or an empty fragment is completed.
-/

import Sheep.UriQueries
import Sheep.UriSoundness

namespace Sheep

open ScanLoop

namespace UriParser

/-! ### What stands behind a path -/

/-- The bytes of a path. -/
abbrev PathByte (byte : Byte) : Prop := byte ≠ chr '?' ∧ byte ≠ chr '#'

/-- Pairs of names and values, at least one. -/
def IsQueryText (query : List Byte) : Prop :=
  ∃ pairs, pairs ≠ [] ∧ (∀ pair ∈ pairs, IsPair pair) ∧ query = queryText pairs

/-- What becomes of a query string. -/
inductive QueryVerdict (query : List Byte) : UriParseResult → Prop
  | pairs (isText : IsQueryText query) : QueryVerdict query .completed
  | refused (noText : ¬ IsQueryText query) : QueryVerdict query .error

/-- What stands behind a path, and what becomes of it. -/
inductive Ending : List Byte → UriParseResult → Prop
  | nothing : Ending [] .completed
  | hash : Ending [chr '#'] .error
  | fragment {fragment : List Byte} (some : fragment ≠ []) :
      Ending (chr '#' :: fragment) .completed
  | question : Ending [chr '?'] .error
  | query {query : List Byte} {verdict : UriParseResult} (isQuery : IsQuery query)
      (becomes : QueryVerdict query verdict) : Ending (chr '?' :: query) verdict
  | queryHash {query : List Byte} (isQuery : IsQuery query) :
      Ending (chr '?' :: (query ++ [chr '#'])) .incompleted
  | queryFragment {query fragment : List Byte} {verdict : UriParseResult}
      (isQuery : IsQuery query) (some : fragment ≠ []) (becomes : QueryVerdict query verdict) :
      Ending (chr '?' :: (query ++ chr '#' :: fragment)) verdict

theorem exists_queryVerdict (query : List Byte) : ∃ verdict, QueryVerdict query verdict := by
  by_cases isText : IsQueryText query
  · exact ⟨_, .pairs isText⟩
  · exact ⟨_, .refused isText⟩

/-- Behind the question mark the first hash but for the first byte ends the query string. -/
theorem exists_ending_question (rest : List Byte) :
    ∃ verdict, Ending (chr '?' :: rest) verdict := by
  cases rest with
  | nil => exact ⟨_, .question⟩
  | cons first others =>
    by_cases plain : ∀ byte ∈ others, byte ≠ chr '#'
    · obtain ⟨verdict, becomes⟩ := exists_queryVerdict (first :: others)
      exact ⟨verdict, .query ⟨trivial, plain⟩ becomes⟩
    · obtain ⟨front, hash, fragment, rfl, before, same⟩ := exists_first_failure plain
      obtain rfl := not_not.mp same
      have isQuery : IsQuery (first :: front) := ⟨trivial, before⟩
      by_cases none : fragment = []
      · subst none
        exact ⟨_, .queryHash isQuery⟩
      · obtain ⟨verdict, becomes⟩ := exists_queryVerdict (first :: front)
        exact ⟨verdict, .queryFragment isQuery none becomes⟩

/-- Every text is a path and an ending. -/
theorem exists_ending (rest : List Byte) : ∃ path tail verdict, rest = path ++ tail ∧
    (∀ byte ∈ path, PathByte byte) ∧ Ending tail verdict := by
  by_cases plain : ∀ byte ∈ rest, PathByte byte
  · exact ⟨rest, [], _, (List.append_nil rest).symm, plain, .nothing⟩
  · obtain ⟨path, mark, others, rfl, before, marks⟩ := exists_first_failure plain
    refine ⟨path, mark :: others, ?_⟩
    by_cases question : mark = chr '?'
    · subst question
      obtain ⟨verdict, ending⟩ := exists_ending_question others
      exact ⟨verdict, rfl, before, ending⟩
    · have hash : mark = chr '#' := not_not.mp fun other => marks ⟨question, other⟩
      subst hash
      by_cases none : others = []
      · subst none
        exact ⟨_, rfl, before, .hash⟩
      · exact ⟨_, rfl, before, .fragment none⟩

/-! ### The run behind a path -/

/-- The components before the path, and the port. -/
structure SameFront (uri uri' : Uri) : Prop where
  scheme : uri'.scheme = uri.scheme
  username : uri'.username = uri.username
  password : uri'.password = uri.password
  hostname : uri'.hostname = uri.hostname
  portstr : uri'.portstr = uri.portstr
  port : uri'.port = uri.port

theorem SameFront.of_eq {uri uri' : Uri}
    (same : ∃ path querystr fragment queries,
      uri' = { uri with path, querystr, fragment, queries }) : SameFront uri uri' := by
  obtain ⟨path, querystr, fragment, queries, rfl⟩ := same
  exact ⟨rfl, rfl, rfl, rfl, rfl, rfl⟩

/-- The parser has read `path` behind `front`, and stored nothing from the path on. -/
structure InPath (front path : List Byte) (l : Locals) : Prop where
  state : l.state = .path
  prevIt : l.prevIt = front.length
  starts : Token (· = chr '/') PathByte path
  path : l.uri.path = .empty
  querystr : l.uri.querystr = .empty
  queries : l.uri.queries = []

theorem parseQueryText_refused {offset : Int} {first : Byte} {others : List Byte} {uri : Uri}
    (refused : ¬ NameByte first) :
    parseQueryText offset (first :: others) uri = ⟨.error, uri⟩ := by
  obtain ⟨reserved, other⟩ := not_or.mp refused
  unfold parseQueryText
  simp only
  rw [if_pos (by simp [reserved, other])]

/-- What a query string becomes does not depend on where it stands. -/
theorem parseQueryText_verdict {before query : List Byte} {verdict : UriParseResult} {uri : Uri}
    (isQuery : IsQuery query) (becomes : QueryVerdict query verdict) (none : uri.queries = []) :
    (parseQueryText before.length query uri).verdict = verdict := by
  cases becomes with
  | pairs isText =>
    obtain ⟨pairs, _, good, rfl⟩ := isText
    obtain ⟨stored, parsed, _⟩ := parseQueryText_queryText before pairs good none
    rw [parsed]
  | refused noText =>
    rcases parseQueryText_trail before.length isQuery.ne_nil uri with error | ⟨_, isText⟩
    · exact error
    · exact absurd isText noText

section Tail

variable {after front path : List Byte} {l : Locals}

/-- What the uri holds when the path has ended. -/
def storePath (front path : List Byte) (uri : Uri) : Uri := { uri with path := span front path }

theorem size_storePath (uri : Uri) (starts : Token (· = chr '/') PathByte path) :
    (storePath front path uri).path.size ≠ 0 := by
  show (span front path).size ≠ 0
  rw [size_span]
  have := List.length_pos_iff.mpr starts.ne_nil
  omega

/-- Where a path is taken for a query string, the parse ends with an error. -/
theorem finish_path (uri : Uri) {mark : List Byte} (starts : Token (· = chr '/') PathByte path)
    (stored : l.uri = storePath front path uri) (none : uri.querystr = .empty)
    (prevIt : l.prevIt = front.length) :
    (finish (front ++ path ++ mark) l).verdict = .error ∧
      SameFront uri (finish (front ++ path ++ mark) l).uri := by
  have stores : l.uri.path.size ≠ 0 := by
    rw [stored]
    exact size_storePath uri starts
  obtain ⟨slash, others, rfl⟩ := List.exists_cons_of_ne_nil starts.ne_nil
  obtain rfl := starts.1
  have split : front ++ chr '/' :: others ++ mark =
      front ++ (chr '/' :: (others ++ mark)) ++ [] := by
    simp
  rw [finish_query stores (by rw [stored]; exact none), prevIt, split, List.append_nil,
    parseQueries_range (List.append_nil _).symm rfl, parseQueryText_refused (by decide), stored]
  exact ⟨rfl, .of_eq ⟨_, _, _, _, rfl⟩⟩

/-- Parsing the query string decides the verdict. -/
theorem parseQueries_verdict (uri : Uri) {buf before query rest : List Byte} {uri' : Uri}
    {verdict : UriParseResult} (isQuery : IsQuery query) (becomes : QueryVerdict query verdict)
    (split : buf = before ++ query ++ rest) (none : uri'.queries = [])
    (place : uri'.querystr = span before query) (same : SameFront uri uri') :
    (parseQueries buf uri').verdict = verdict ∧ SameFront uri (parseQueries buf uri').uri := by
  rw [parseQueries_range split place]
  refine ⟨parseQueryText_verdict isQuery becomes none, ?_⟩
  obtain ⟨queries, stored⟩ := parseQueryText_same before.length query uri'
  rw [stored]
  exact ⟨same.scheme, same.username, same.password, same.hostname, same.portstr, same.port⟩

/-- A hash ends the path. -/
theorem turn_pathHash {ahead : List Byte} (inPath : InPath front path l) :
    turn after (front ++ path) (chr '#') ahead l =
      .go ⟨.hashStart, front.length, storePath front path l.uri⟩ := by
  simp only [turn, inPath.state, if_true, inPath.prevIt]
  rfl

/-- A question mark ends the path. -/
theorem turn_pathQuestion {ahead : List Byte} (inPath : InPath front path l) :
    turn after (front ++ path) (chr '?') ahead l =
      .go ⟨.queryStart, front.length, storePath front path l.uri⟩ := by
  simp only [turn, inPath.state, (by decide : chr '?' ≠ chr '#'), if_true, if_false, inPath.prevIt]
  rfl

variable (after) in
/-- The query string is read on to its end. -/
theorem runs_isQuery {query : List Byte} (inPath : InPath front path l)
    (isQuery : IsQuery query) :
    Runs (turn after) (front ++ path) (chr '?' :: query) l fun _ l' =>
      l' = ⟨.query, (front ++ path ++ [chr '?']).length, storePath front path l.uri⟩ := by
  refine runs_cons fun ahead => ?_
  rw [turn_pathQuestion inPath, onward_go]
  refine isQuery.runs _ (fun symbol ahead' _ => ?_) (fun symbol before' ahead' plain => ?_) rfl
  · simp only [turn, onward_go]
  · simp only [turn, plain, if_false, onward_go]

variable (after) in
/-- The hash behind the query string is read as well. -/
theorem runs_queryHash {query : List Byte} (inPath : InPath front path l)
    (isQuery : IsQuery query) :
    Runs (turn after) (front ++ path) (chr '?' :: query ++ [chr '#']) l fun _ l' =>
      l' = ⟨.hashStart, (front ++ path ++ [chr '?']).length, { storePath front path l.uri with
        querystr := span (front ++ path ++ [chr '?']) query }⟩ := by
  refine (runs_isQuery after inPath isQuery).append ?_
  rintro l' rfl
  refine runs_cons fun ahead => ?_
  simp only [turn, if_true, onward_go]
  refine runs_nil ?_
  rw [span, List.append_assoc (front ++ path), List.singleton_append]

variable (after) in
/-- What stands behind the path decides the verdict, and changes nothing before it. -/
theorem result_ending {tail : List Byte} {verdict : UriParseResult} (inPath : InPath front path l)
    (ending : Ending tail verdict) :
    ((feed (turn after) (front ++ path) tail [] 0 l).result
        (finish (front ++ path ++ tail))).verdict = verdict ∧
      SameFront l.uri ((feed (turn after) (front ++ path) tail [] 0 l).result
        (finish (front ++ path ++ tail))).uri := by
  have stores : (storePath front path l.uri).path.size ≠ 0 := size_storePath l.uri inPath.starts
  have same (querystr fragment : StringView) :
      SameFront l.uri { storePath front path l.uri with querystr, fragment } :=
    .of_eq ⟨_, _, _, _, rfl⟩
  cases ending with
  | nothing =>
    have empty : l.uri.path.size = 0 := by
      rw [inPath.path]
      rfl
    rw [feed_nil, Progress.result, finish]
    simp only [if_pos empty]
    exact ⟨trivial, .of_eq ⟨_, _, _, _, rfl⟩⟩
  | hash =>
    rw [feed_cons_go (turn_pathHash inPath), feed_nil]
    exact finish_path l.uri inPath.starts rfl inPath.querystr rfl
  | question =>
    rw [feed_cons_go (turn_pathQuestion inPath), feed_nil]
    exact finish_path l.uri inPath.starts rfl inPath.querystr rfl
  | fragment some =>
    rw [feed_cons_go (turn_pathHash inPath), feed_fragment some rfl, Progress.result]
    simp only
    rw [parseQueries_empty (by exact inPath.querystr)]
    exact ⟨rfl, same _ _⟩
  | @query query verdict isQuery becomes =>
    obtain ⟨l', inside, rfl⟩ := (runs_isQuery after inPath isQuery).feed []
    have split : front ++ path ++ chr '?' :: query = front ++ path ++ [chr '?'] ++ query := by
      simp
    rw [inside, Progress.result, finish_query (l := ⟨.query, _, storePath front path l.uri⟩) stores
      inPath.querystr, split]
    exact parseQueries_verdict l.uri isQuery becomes (List.append_nil _).symm inPath.queries rfl
      (same _ _)
  | @queryHash query isQuery =>
    obtain ⟨l', inside, rfl⟩ := (runs_queryHash after inPath isQuery).feed []
    have long : (span (front ++ path ++ [chr '?']) query).size ≠ 0 := by
      rw [size_span]
      have := List.length_pos_iff.mpr isQuery.ne_nil
      omega
    rw [← List.cons_append, inside, Progress.result, finish]
    simp only [if_neg stores, if_neg long]
    exact ⟨trivial, same _ _⟩
  | @queryFragment query fragment verdict isQuery some becomes =>
    obtain ⟨l', inside, rfl⟩ := (runs_queryHash after inPath isQuery).feed (fragment ++ [])
    have split : chr '?' :: (query ++ chr '#' :: fragment) =
        chr '?' :: query ++ [chr '#'] ++ fragment := by
      simp
    have cut : front ++ path ++ (chr '?' :: query ++ [chr '#']) ++ fragment =
        front ++ path ++ [chr '?'] ++ query ++ (chr '#' :: fragment) := by
      simp
    rw [split, feed_append_of_inside inside, feed_fragment some rfl, Progress.result]
    exact parseQueries_verdict l.uri isQuery becomes cut inPath.queries rfl (same _ _)

end Tail

/-! ### Marks behind a text without marks -/

section Marks

variable {after before ahead : List Byte} {l : Locals}

/-- Before the path a mark is an error. -/
theorem turn_frontMark {mark : Byte} (trail : FrontTrail before l)
    (marks : mark = chr '?' ∨ mark = chr '#') :
    turn after before mark ahead l = .leave ⟨.error, l.uri⟩ := by
  have noAlnum : isAlnum mark = false := by rcases marks with rfl | rfl <;> decide
  have noDigit : isDigit mark = false := by rcases marks with rfl | rfl <;> decide
  have noStart : isUnreserved mark = false := by rcases marks with rfl | rfl <;> decide
  obtain ⟨percent, plus, minus, dot, colon, slash, sign⟩ : mark ≠ chr '%' ∧ mark ≠ chr '+' ∧
      mark ≠ chr '-' ∧ mark ≠ chr '.' ∧ mark ≠ chr ':' ∧ mark ≠ chr '/' ∧ mark ≠ chr '@' := by
    rcases marks with rfl | rfl <;> decide
  cases trail with
  | portOrPassword either =>
    rcases either with rfl | rfl <;> simp [turn, noAlnum, noDigit, percent, slash, sign]
  | _ => simp [turn, noAlnum, noDigit, noStart, percent, plus, minus, dot, colon, slash, sign]

/-- Where no mark has been read, the path is being read, or it has not begun. -/
theorem Trail.cases_of_plain (trail : Trail before l) (plain : ∀ byte ∈ before, PathByte byte) :
    FrontTrail before l ∨ ∃ front path, before = front ++ path ∧ InPath front path l := by
  have marked {text rest : List Byte} {mark : Byte} (same : before = text ++ mark :: rest)
      (marks : ¬ PathByte mark) : False :=
    marks (plain mark (by rw [same]; simp))
  rcases trail with trail | trail
  · exact Or.inl trail
  · refine Or.inr ?_
    cases trail with
    | @path parts port reading =>
      exact ⟨parts.front, parts.path, rfl, rfl, rfl, reading.path, rfl, rfl, rfl⟩
    | pathHash reading => exact (marked rfl (by decide)).elim
    | queryStart reading => exact (marked rfl (by decide)).elim
    | @query parts query port reading isQuery =>
      refine (marked (List.append_assoc _ _ _) (by decide)).elim
    | @queryHash parts query port reading isQuery => exact (marked rfl (by decide)).elim

/-- A loop that leaves where no mark has been read leaves with an error. -/
theorem error_of_left {buf : List Byte} {outcome : Outcome}
    (left : feed (turn after) [] buf ahead 0 ⟨.schemeStart, 0, Uri.fresh⟩ = .left outcome)
    (plain : ∀ byte ∈ buf, PathByte byte) : outcome.verdict = .error := by
  obtain ⟨read, symbol, rest, reached, notes, rfl, inside, leaves⟩ := exists_leave_of_feed left
  have leads := feed_trail after read (symbol :: rest ++ ahead)
  rw [inside] at leads
  rcases leads.2.cases_of_plain fun byte member => plain byte (List.mem_append_left _ member) with
    trail | ⟨front, path, _, inPath⟩
  · have turned : (turn after ([] ++ read) symbol (rest ++ ahead) reached).Leads _ _ :=
      turn_frontTrail trail
    rw [leaves] at turned
    exact turned
  · have goes : (turn after ([] ++ read) symbol (rest ++ ahead) reached).Leads
        (fun _ _ => True) fun _ => False := by
      simp only [turn, inPath.state]
      split
      · trivial
      · split <;> trivial
    rw [leaves] at goes
    exact goes.elim

end Marks

/-- What stands behind a text without marks decides the verdict, unless it is an error. -/
theorem verdict_of_mark (after : List Byte) {text tail : List Byte} {verdict : UriParseResult}
    (plain : ∀ byte ∈ text, PathByte byte) (marked : ∃ mark others, tail = mark :: others ∧
      (mark = chr '?' ∨ mark = chr '#')) (ending : Ending tail verdict) :
    (parse after Uri.fresh (text ++ tail)).verdict = .error ∨
      (parse after Uri.fresh (text ++ tail)).verdict = verdict := by
  have leads := feed_trail after text (tail ++ [])
  rw [parse, run_eq_result]
  cases ended : feed (turn after) [] text (tail ++ []) 0 ⟨.schemeStart, 0, Uri.fresh⟩ with
  | left outcome =>
    rw [feed_append_of_left ended]
    exact Or.inl (error_of_left ended plain)
  | inside skip l =>
    rw [ended] at leads
    obtain ⟨rfl, trail⟩ := leads
    rw [feed_append_of_inside ended, List.nil_append]
    rcases trail.cases_of_plain plain with trail | ⟨front, path, rfl, inPath⟩
    · obtain ⟨mark, others, rfl, marks⟩ := marked
      rw [feed_cons_leave (turn_frontMark trail marks)]
      exact Or.inl rfl
    · exact Or.inr (result_ending after inPath ending).1

/-! ### Empty queries and empty fragments -/

/-- The components of a uri as texts. -/
structure Components where
  scheme : Option (List Byte)
  username : Option (List Byte)
  password : Option (List Byte)
  hostname : Option (List Byte)
  port : UInt16
  path : Option (List Byte)
  querystr : Option (List Byte)
  queries : List (Option (List Byte) × Option (List Byte))
  fragment : Option (List Byte)
deriving DecidableEq, Repr

def components (buf : List Byte) (uri : Uri) : Components where
  scheme := uri.scheme.text buf
  username := uri.username.text buf
  password := uri.password.text buf
  hostname := uri.hostname.text buf
  port := uri.port
  path := uri.path.text buf
  querystr := uri.querystr.text buf
  queries := uri.queries.map fun query => (query.name.text buf, query.value.text buf)
  fragment := uri.fragment.text buf

/-- No query, and this fragment. -/
def Components.plain (parts : Components) (fragment : List Byte) : Components :=
  { parts with querystr := some [], queries := [], fragment := some fragment }

/-- A complete uri with a path and neither query nor fragment. -/
structure Bare (after text : List Byte) : Prop where
  plain : ∀ byte ∈ text, PathByte byte
  completed : (parse after Uri.fresh text).verdict = .completed
  path : ∃ rest, (parse after Uri.fresh text).uri.path.text text = some (chr '/' :: rest)

/-- A complete uri with a query and no fragment. -/
structure Queried (after text : List Byte) : Prop where
  noHash : ∀ byte ∈ text, byte ≠ chr '#'
  completed : (parse after Uri.fresh text).verdict = .completed
  query : (parse after Uri.fresh text).uri.querystr.size ≠ 0

/-- The text stays complete with more behind it, and has these components then. -/
def Extends (after text more : List Byte) (parts : Components) : Prop :=
  (parse after Uri.fresh (text ++ more)).verdict = .completed ∧
    components (text ++ more) (parse after Uri.fresh (text ++ more)).uri = parts

/-- What an empty query and an empty fragment should leave as it is. -/
def TakesEmptyParts (after text : List Byte) : Prop :=
  (Bare after text →
    (∀ after', Extends after' text (ascii "?")
      ((components text (parse after Uri.fresh text).uri).plain [])) ∧
    (∀ after', Extends after' text (ascii "#")
      ((components text (parse after Uri.fresh text).uri).plain [])) ∧
    ∀ after' fragment, fragment ≠ [] → Extends after' text (ascii "?#" ++ fragment)
      ((components text (parse after Uri.fresh text).uri).plain fragment)) ∧
  (Queried after text → ∀ after', Extends after' text (ascii "#")
    (components text (parse after Uri.fresh text).uri))

theorem nameByte_of_isQueryText {first : Byte} {others : List Byte}
    (isText : IsQueryText (first :: others)) : NameByte first := by
  obtain ⟨pairs, _, good, same⟩ := isText
  obtain ⟨stored, parsed, _⟩ :=
    parseQueryText_queryText [] pairs good (rfl : Uri.fresh.queries = [])
  rw [← same] at parsed
  exact nameByte_of_parseQueryText (by rw [parsed])

/-- A hash behind a question mark is taken for a query string, which it is not. -/
theorem not_ending_questionHash {others : List Byte} :
    ¬ Ending (chr '?' :: chr '#' :: others) .completed := by
  intro ending
  generalize same : chr '?' :: chr '#' :: others = tail at ending
  cases ending with
  | nothing => cases same
  | fragment some => exact absurd (List.cons.inj same).1 (by decide)
  | @query query _ isQuery becomes =>
    obtain ⟨_, rfl⟩ := List.cons.inj same
    cases becomes with
    | pairs isText => exact absurd (nameByte_of_isQueryText isText) (by decide)
  | @queryFragment query fragment _ isQuery some becomes =>
    obtain ⟨_, same⟩ := List.cons.inj same
    cases becomes with
    | pairs isText =>
      obtain ⟨first, rest, rfl⟩ := List.exists_cons_of_ne_nil isQuery.ne_nil
      obtain ⟨rfl, _⟩ := List.cons.inj same
      exact absurd (nameByte_of_isQueryText isText) (by decide)

/-- Behind a text without marks, only an ending that completes may complete. -/
theorem ending_of_completed {after text tail : List Byte} (plain : ∀ byte ∈ text, PathByte byte)
    (marked : ∃ mark others, tail = mark :: others ∧ (mark = chr '?' ∨ mark = chr '#'))
    {verdict : UriParseResult} (ending : Ending tail verdict)
    (completed : (parse after Uri.fresh (text ++ tail)).verdict = .completed) :
    verdict = .completed := by
  rcases verdict_of_mark after plain marked ending with error | same
  · rw [error] at completed
    cases completed
  · rw [← same, completed]

/-- A hash behind a text without one announces a fragment that is not there. -/
theorem not_completed_hash (after : List Byte) {text : List Byte}
    (noHash : ∀ byte ∈ text, byte ≠ chr '#') :
    (parse after Uri.fresh (text ++ ascii "#")).verdict ≠ .completed := by
  intro completed
  by_cases plain : ∀ byte ∈ text, PathByte byte
  · exact UriParseResult.noConfusion
      (ending_of_completed plain ⟨_, _, rfl, Or.inr rfl⟩ .hash completed)
  · obtain ⟨front, mark, query, rfl, before, marks⟩ := exists_first_failure plain
    have question : mark = chr '?' := not_not.mp fun other =>
      marks ⟨other, noHash mark (by simp)⟩
    subst question
    rw [List.append_assoc] at completed
    by_cases none : query = []
    · subst none
      obtain ⟨verdict, ending⟩ := exists_ending_question [chr '#']
      obtain rfl := ending_of_completed before ⟨_, _, rfl, Or.inl rfl⟩ ending completed
      exact not_ending_questionHash ending
    · have isQuery : IsQuery query := by
        obtain ⟨first, others, rfl⟩ := List.exists_cons_of_ne_nil none
        exact ⟨trivial, fun byte member => noHash byte (by simp [member])⟩
      exact UriParseResult.noConfusion
        (ending_of_completed before ⟨_, _, rfl, Or.inl rfl⟩ (.queryHash isQuery) completed)

/-- No uri stays complete when an empty query or an empty fragment is written behind it. -/
theorem takesNoEmptyParts (after text : List Byte) :
    (Bare after text → ∀ after' parts,
      ¬ Extends after' text (ascii "?") parts ∧ ¬ Extends after' text (ascii "#") parts ∧
        ∀ fragment, fragment ≠ [] → ¬ Extends after' text (ascii "?#" ++ fragment) parts) ∧
    (Queried after text → ∀ after' parts, ¬ Extends after' text (ascii "#") parts) := by
  refine ⟨fun bare after' parts => ⟨?_, ?_, ?_⟩, fun queried after' parts stays => ?_⟩
  · rintro ⟨completed, _⟩
    exact UriParseResult.noConfusion
      (ending_of_completed bare.plain ⟨_, _, rfl, Or.inl rfl⟩ .question completed)
  · rintro ⟨completed, _⟩
    exact not_completed_hash after' (fun byte member => (bare.plain byte member).2) completed
  · rintro fragment - ⟨completed, _⟩
    obtain ⟨verdict, ending⟩ := exists_ending_question (chr '#' :: fragment)
    obtain rfl := ending_of_completed bare.plain ⟨_, _, rfl, Or.inl rfl⟩ ending completed
    exact not_ending_questionHash ending
  · exact not_completed_hash after' queried.noHash stays.1

theorem takesNoEmptyParts_rootPath :
    ¬ Extends [] (ascii "http://h/") (ascii "?")
        ((components (ascii "http://h/") (parse [] Uri.fresh (ascii "http://h/")).uri).plain []) ∧
      ¬ Extends [] (ascii "http://h/?n=v") (ascii "#")
        (components (ascii "http://h/?n=v") (parse [] Uri.fresh (ascii "http://h/?n=v")).uri) :=
  ⟨((takesNoEmptyParts [] (ascii "http://h/")).1
      ⟨by decide +kernel, by decide +kernel, [], by decide +kernel⟩ [] _).1,
    (takesNoEmptyParts [] (ascii "http://h/?n=v")).2
      ⟨by decide +kernel, by decide +kernel, by decide +kernel⟩ [] _⟩

/-- The hash behind a complete uri makes it an error. -/
theorem not_takesEmptyParts : ¬ ∀ after text, TakesEmptyParts after text := by
  intro takes
  have bare : Bare [] (ascii "http://h/") :=
    ⟨by decide +kernel, by decide +kernel, [], by decide +kernel⟩
  obtain ⟨completed, _⟩ := ((takes [] (ascii "http://h/")).1 bare).2.1 []
  exact absurd completed (by decide +kernel)

end UriParser

end Sheep
