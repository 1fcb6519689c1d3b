/-
This file proves that the parser reads back every uri that is written from its
components. Up to the path the parser does not know what it reads: a host may
turn out to be a user, and a user with a port is a host after all. All
combinations end at the slash with the components where they belong. After it
what is still empty takes the rest of the buffer.
-/

import Mathlib.Data.List.Forall2
import Sheep.UriParser

namespace Sheep

open ScanLoop

namespace UriParser

/-! ### Uris as texts -/

/-- The bytes of names, of users and hosts behind their first byte, and of queries. -/
abbrev NameByte (byte : Byte) : Prop := isUnreserved byte = true ∨ byte = chr '%'

/-- The bytes of a password behind its first byte. -/
abbrev SecretByte (byte : Byte) : Prop := isAlnum byte = true ∨ byte = chr '%'

abbrev SchemeByte (byte : Byte) : Prop :=
  isAlnum byte = true ∨ byte = chr '+' ∨ byte = chr '-' ∨ byte = chr '.'

/-- The components of a uri. A query or a fragment that is empty is absent. -/
structure UriText where
  scheme : List Byte
  user : Option (List Byte × Option (List Byte))
  host : List Byte
  port : Option (List Byte)
  path : List Byte
  queries : List (List Byte × List Byte)
  fragment : List Byte
deriving DecidableEq, Repr

def userBytes : Option (List Byte × Option (List Byte)) → List Byte
  | none => []
  | some (user, none) => user ++ [chr '@']
  | some (user, some password) => user ++ chr ':' :: (password ++ [chr '@'])

def portBytes : Option (List Byte) → List Byte
  | none => []
  | some digits => chr ':' :: digits

/-- Pairs of names and values, separated by ampersands. -/
def queryText : List (List Byte × List Byte) → List Byte
  | [] => []
  | [query] => query.1 ++ chr '=' :: query.2
  | query :: queries => query.1 ++ chr '=' :: (query.2 ++ chr '&' :: queryText queries)

/-- A component with the byte before it, if it is there. -/
def optionalBytes (mark : Byte) : List Byte → List Byte
  | [] => []
  | text => mark :: text

namespace UriText

/-- Everything before the path. -/
def front (text : UriText) : List Byte :=
  text.scheme ++ (ascii "://" ++ (userBytes text.user ++ (text.host ++ portBytes text.port)))

def bytes (text : UriText) : List Byte :=
  text.front ++ (text.path ++ (optionalBytes (chr '?') (queryText text.queries) ++
    optionalBytes (chr '#') text.fragment))

structure WellFormed (text : UriText) : Prop where
  scheme : Token SchemeByte SchemeByte text.scheme
  user : ∀ user ∈ text.user, Token (isAlnum · = true) NameByte user.1 ∧
    ∀ password ∈ user.2, Token (isAlnum · = true) (isAlnum · = true) password
  host : Token (isAlnum · = true) NameByte text.host
  port : ∀ digits ∈ text.port, Token (isDigit · = true) (isDigit · = true) digits ∧
    decimalValue digits ≤ 65535
  path : Token (· = chr '/') (fun byte => byte ≠ chr '?' ∧ byte ≠ chr '#') text.path
  queries : ∀ query ∈ text.queries,
    Token NameByte NameByte query.1 ∧ Token NameByte NameByte query.2

end UriText

/-! ### What is read -/

/-- The components before the path, as a uri stores them. -/
structure FrontRead (text : UriText) (before : List Byte) (uri : Uri) : Prop where
  scheme : uri.scheme.text before = some text.scheme
  username : uri.username.text before = some ((text.user.map (·.1)).getD [])
  password : uri.password.text before = some ((text.user.bind (·.2)).getD [])
  hostname : uri.hostname.text before = some text.host
  portstr : uri.portstr.text before = some (text.port.getD [])
  port : uri.port.toNat = (text.port.map decimalValue).getD 80

theorem FrontRead.append {text : UriText} {before : List Byte} {uri : Uri}
    (read : FrontRead text before uri) (more : List Byte) : FrontRead text (before ++ more) uri :=
  ⟨StringView.text_append read.scheme more, StringView.text_append read.username more,
    StringView.text_append read.password more, StringView.text_append read.hostname more,
    StringView.text_append read.portstr more, read.port⟩

/-- The other fields of the uri do not matter. -/
theorem FrontRead.withRest {text : UriText} {before : List Byte} {uri : Uri}
    (read : FrontRead text before uri) (path querystr fragment : StringView)
    (queries : List Uri.Query) :
    FrontRead text before { uri with path, querystr, fragment, queries } :=
  ⟨read.scheme, read.username, read.password, read.hostname, read.portstr, read.port⟩

/-- A stored query denotes a name and a value. -/
structure QueryRead (buf : List Byte) (stored : Uri.Query) (query : List Byte × List Byte) :
    Prop where
  name : stored.name.text buf = some query.1
  value : stored.value.text buf = some query.2

theorem QueryRead.append {buf : List Byte} {stored : Uri.Query} {query : List Byte × List Byte}
    (read : QueryRead buf stored query) (more : List Byte) : QueryRead (buf ++ more) stored query :=
  ⟨StringView.text_append read.name more, StringView.text_append read.value more⟩

/-- The uri stores the components of the text. -/
structure Yields (text : UriText) (buf : List Byte) (uri : Uri) : Prop where
  front : FrontRead text buf uri
  path : uri.path.text buf = some text.path
  querystr : uri.querystr.text buf = some (queryText text.queries)
  queries : List.Forall₂ (QueryRead buf) uri.queries text.queries
  fragment : uri.fragment.text buf = some text.fragment

/-! ### Queries -/

section Queries

/-- Where a query may start: at the start of the query string, or behind an ampersand. -/
def AtQuery (offset : Nat) (before : List Byte) (l : QueryLocals) : Prop :=
  (l.state = .queryName ∧ l.prevIt = offset + before.length) ∨ l.state = .newQueryStart

theorem plain_of_nameByte {byte : Byte} (name : NameByte byte) :
    (isUnreserved byte || byte == chr '%') = true := by
  rcases name with unreserved | rfl
  · rw [unreserved, Bool.true_or]
  · rw [beq_self_eq_true, Bool.or_true]

/-- A name and a value go through. -/
theorem runs_query {pre before : List Byte} {query : List Byte × List Byte} {l : QueryLocals}
    (good : Token NameByte NameByte query.1 ∧ Token NameByte NameByte query.2)
    (starts : AtQuery pre.length before l) :
    Runs (queryTurn pre.length) before (query.1 ++ chr '=' :: query.2) l fun before' l' =>
      l'.state = .queryValue ∧ l'.uri = l.uri ∧
      QueryRead (pre ++ before') ⟨l'.queryName, .range l'.prevIt (pre.length + before'.length)⟩
        query := by
  obtain ⟨name, value⟩ := query
  refine good.1.runs_append { l with state := .queryName, prevIt := pre.length + before.length }
    ?_ ?_ (runs_cons fun ahead => ?_)
  · intro symbol ahead plain
    have isPlain := plain_of_nameByte plain
    rcases starts with ⟨state, prevIt⟩ | state
    · simp only [queryTurn, state, isPlain, if_true, onward_go]
      rw [← state, ← prevIt]
    · simp only [queryTurn, state, isPlain, if_true, onward_go]
  · intro symbol before' ahead plain
    simp only [queryTurn, plain_of_nameByte plain, if_true, onward_go]
  have notPlain : (isUnreserved (chr '=') || chr '=' == chr '%') = false := by decide
  simp only [queryTurn, notPlain, Bool.false_eq_true, if_false, if_true, onward_go]
  refine good.2.runs { l with
    state := .queryValue
    prevIt := pre.length + (before ++ name ++ [chr '=']).length
    queryName := .range (pre.length + before.length) (pre.length + (before ++ name).length) }
    ?_ ?_ ⟨rfl, rfl, ?_, ?_⟩
  · intro symbol ahead plain
    simp only [queryTurn, plain_of_nameByte plain, if_true, onward_go]
  · intro symbol before' ahead plain
    simp only [queryTurn, plain_of_nameByte plain, if_true, onward_go]
  · exact StringView.text_range (pre ++ before) name (chr '=' :: value) (by simp) (by simp)
      (by simp)
  · exact StringView.text_range (pre ++ (before ++ name ++ [chr '='])) value [] (by simp) (by simp)
      (by simp)

/-- Where queries have gone through, all but the last have been stored. -/
structure QueriesRead (pre before : List Byte) (queries : List (List Byte × List Byte))
    (uri : Uri) (l : QueryLocals) : Prop where
  state : l.state = .queryValue
  same : ∃ stored, l.uri = { uri with queries := stored }
  stored : ∃ stored, l.uri.queries ++
      [⟨l.queryName, .range l.prevIt (pre.length + before.length)⟩] = uri.queries ++ stored ∧
    List.Forall₂ (QueryRead (pre ++ before)) stored queries

theorem runs_queries (pre : List Byte) {before : List Byte} (query : List Byte × List Byte)
    (queries : List (List Byte × List Byte)) {l : QueryLocals}
    (good : ∀ pair ∈ query :: queries, Token NameByte NameByte pair.1 ∧
      Token NameByte NameByte pair.2)
    (starts : AtQuery pre.length before l) :
    Runs (queryTurn pre.length) before (queryText (query :: queries)) l fun before' l' =>
      QueriesRead pre before' (query :: queries) l.uri l' := by
  induction queries generalizing before query l with
  | nil =>
    refine (runs_query (good query List.mem_cons_self) starts).mono ?_
    rintro l' ⟨state, uri, read⟩
    exact ⟨state, ⟨l.uri.queries, by rw [uri]⟩, _, by rw [uri], .cons read .nil⟩
  | cons next rest inductionHypothesis =>
    have shape : queryText (query :: next :: rest) =
        (query.1 ++ chr '=' :: query.2) ++ chr '&' :: queryText (next :: rest) := by
      simp [queryText]
    rw [shape]
    refine Runs.append (runs_query (good query List.mem_cons_self) starts) ?_
    rintro l' ⟨state, uri, read⟩
    refine runs_cons fun ahead => ?_
    have notPlain : (isUnreserved (chr '&') || chr '&' == chr '%') = false := by decide
    simp only [queryTurn, state, notPlain, Bool.false_eq_true, if_false, if_true, onward_go]
    refine (inductionHypothesis next (fun pair member => good pair (List.mem_cons_of_mem _ member))
      (Or.inr rfl)).mono ?_
    rintro l'' ⟨state', ⟨stored', uri'⟩, stored, same, later⟩
    refine ⟨state', ⟨stored', by rw [uri', uri]⟩,
      ⟨l'.queryName, .range l'.prevIt
        (pre.length + (before ++ (query.1 ++ chr '=' :: query.2)).length)⟩ :: stored, ?_,
      .cons ?_ later⟩
    · rw [same, uri, List.append_assoc]
      rfl
    · have grown := read.append (chr '&' :: queryText (next :: rest))
      simpa using grown

/-- A query string is read back, and nothing else of the uri changes. -/
theorem parseQueryText_queryText (pre : List Byte) (queries : List (List Byte × List Byte))
    (good : ∀ pair ∈ queries, Token NameByte NameByte pair.1 ∧ Token NameByte NameByte pair.2)
    {uri : Uri} (none : uri.queries = []) :
    ∃ stored, parseQueryText pre.length (queryText queries) uri =
        ⟨.completed, { uri with queries := stored }⟩ ∧
      List.Forall₂ (QueryRead (pre ++ queryText queries)) stored queries := by
  cases queries with
  | nil => exact ⟨[], by rw [← none]; rfl, .nil⟩
  | cons query rest =>
    obtain ⟨l, inside, state, ⟨stored', sameUri⟩, stored, same, read⟩ :=
      (runs_queries pre query rest good (Or.inl ⟨rfl, by simp⟩ :
        AtQuery pre.length [] ⟨.queryName, pre.length, .empty, uri⟩)).feed []
    rw [none, List.nil_append, List.nil_append] at same
    refine ⟨stored, ?_, read⟩
    obtain ⟨first, others, split, plain⟩ : ∃ first others,
        queryText (query :: rest) = first :: others ∧ NameByte first := by
      obtain ⟨name, value⟩ := query
      have nameToken := (good (name, value) List.mem_cons_self).1
      cases name with
      | nil => exact absurd nameToken id
      | cons byte more => cases rest <;> exact ⟨byte, _, rfl, nameToken.1⟩
    have goes : ¬ (!isUnreserved first && first ≠ chr '%') = true := by
      rcases plain with unreserved | rfl <;> simp [*]
    rw [split] at inside same ⊢
    rw [parseQueryText]
    simp only [if_neg goes]
    rw [run, inside]
    simp only [queryEnd, if_pos state]
    rw [← same, sameUri]

end Queries

/-! ### The front -/

section Front

variable {after : List Byte}

/-- The parser stands behind a slash that starts the path; only the fields before the path are
written. -/
structure AtPath (text : UriText) (before : List Byte) (l : Locals) : Prop where
  state : l.state = .path
  prevIt : l.prevIt = before.length
  front : FrontRead text before l.uri
  path : l.uri.path = .empty
  querystr : l.uri.querystr = .empty
  queries : l.uri.queries = []
  fragment : l.uri.fragment = .empty

theorem nameByte_of_isAlnum {byte : Byte} (alnum : isAlnum byte = true) : NameByte byte :=
  Or.inl (by rw [isUnreserved, alnum, Bool.true_or])

/-- The port that a string of digits is turned into. -/
def portValue (digits : List Byte) : UInt16 :=
  UInt16.ofInt ((min (2 ^ 63 - 1) (decimalValue digits) : Int).bmod (2 ^ 32))

/-- A port in decimal digits ends at the slash. -/
theorem finishPort_token {digits : List Byte} (before rest : List Byte) (l : Locals)
    (good : Token (isDigit · = true) (isDigit · = true) digits)
    (starts : l.prevIt = before.length) :
    finishPort (before ++ digits ++ chr '/' :: rest) (before ++ digits)
        (before ++ digits).length l =
      .go { l with
        state := .path
        prevIt := (before ++ digits).length
        uri := { l.uri with
          portstr := .range before.length (before ++ digits).length
          port := portValue digits } } := by
  have text : (StringView.range before.length (before ++ digits).length).text (before ++ digits) =
      some digits :=
    StringView.text_range before digits [] (by simp) rfl rfl
  have allDigits : isAllDigit digits = true := List.all_eq_true.mpr good.forall_mem
  have memory : (before ++ digits ++ chr '/' :: rest).drop (before.length : Int).toNat =
      digits ++ chr '/' :: rest := by
    rw [Int.toNat_natCast, List.append_assoc, List.drop_left]
  unfold finishPort portValue
  simp only [starts, text, Option.getD_some, allDigits, if_true, memory,
    atoi_digits good.ne_nil good.forall_mem (by decide : ¬ isDigit (chr '/') = true)]

/-- A port that fits is stored as it is. -/
theorem portValue_of_le {digits : List Byte} (small : decimalValue digits ≤ 65535) :
    portValue digits = UInt16.ofInt (decimalValue digits : Int) := by
  rw [portValue, min_eq_right (by omega), Int.bmod_eq_of_le (by omega) (by omega)]

theorem toNat_ofInt_decimalValue {digits : List Byte} (small : decimalValue digits ≤ 65535) :
    (UInt16.ofInt (decimalValue digits : Int)).toNat = decimalValue digits := by
  rw [UInt16.ofInt, UInt16.toNat_ofNat_of_lt'] <;> (simp [UInt16.size]; omega)

/-- The scheme without its colon changes nothing. -/
theorem runs_schemeBytes {scheme : List Byte} (good : ∀ byte ∈ scheme, SchemeByte byte) :
    Runs (turn after) [] scheme ⟨.schemeStart, 0, Uri.fresh⟩
      fun _ l => l = ⟨.schemeStart, 0, Uri.fresh⟩ := by
  refine runs_loop (fun byte member before ahead => ?_) rfl
  simp only [turn]
  rw [if_pos (by rcases good byte member with alnum | rfl | rfl | rfl <;> simp [*])]
  rfl

/-- The scheme and the two slashes. -/
theorem runs_scheme {text : UriText} (good : text.WellFormed) :
    Runs (turn after) [] (text.scheme ++ ascii "://") ⟨.schemeStart, 0, Uri.fresh⟩
      fun _ l => l.state = .schemeEndSlashSlash ∧
        l.uri = { Uri.fresh with scheme := .range 0 text.scheme.length } := by
  refine (runs_schemeBytes good.scheme.forall_mem).append ?_
  rintro l rfl
  rw [List.nil_append]
  refine runs_cons fun ahead => runs_cons fun ahead' => runs_cons fun ahead'' => ⟨rfl, ?_⟩
  rfl

/-- The states behind the colon of the scheme, in which a name may start. -/
def State.AtName (state : State) : Prop :=
  state = .schemeEnd ∨ state = .schemeEndSlash ∨ state = .schemeEndSlashSlash

theorem turn_atName {before ahead : List Byte} {symbol : Byte} {l : Locals}
    (state : l.state.AtName) (starts : isAlnum symbol = true) :
    (turn after before symbol ahead l).Onward
      (· = { l with state := .usernameOrHostname, prevIt := before.length }) := by
  have notSlash : symbol ≠ chr '/' := by
    rintro rfl
    exact absurd starts (by decide)
  rcases state with state | state | state <;>
    simp only [turn, state, notSlash, starts, if_true, if_false, onward_go]

/-- A user, up to the host. -/
structure UserRead (user : List Byte × Option (List Byte)) (read : List Byte) (uri : Uri)
    (l : Locals) : Prop where
  state : l.state = .hostnameStart
  same : ∃ username password, l.uri = { uri with username, password }
  username : l.uri.username.text read = some user.1
  password : l.uri.password.text read = some (user.2.getD [])

theorem plain_eq_true {byte : Byte} (name : NameByte byte) :
    (isUnreserved byte || decide (byte = chr '%')) = true :=
  plain_of_nameByte name

theorem plain_mark {mark : Byte} (marks : mark = chr ':' ∨ mark = chr '@' ∨ mark = chr '/') :
    (isUnreserved mark || decide (mark = chr '%')) = false := by
  rcases marks with rfl | rfl | rfl <;> decide

/-- A password may look like a port for a while. -/
theorem runs_password {before password : List Byte} {l : Locals}
    (secret : ∀ byte ∈ password, SecretByte byte)
    (state : l.state = .portOrPassword ∨ l.state = .password) :
    Runs (turn after) before password l fun _ l' =>
      (l'.state = .portOrPassword ∨ l'.state = .password) ∧ l'.prevIt = l.prevIt ∧
        l'.uri = l.uri := by
  induction password generalizing before l with
  | nil => exact runs_nil ⟨state, rfl, rfl⟩
  | cons byte rest inductionHypothesis =>
    obtain ⟨here, later⟩ := List.forall_mem_cons.mp secret
    have notSlash : byte ≠ chr '/' := by
      rintro rfl
      exact absurd here (by decide)
    have continues : (isAlnum byte || decide (byte = chr '%')) = true := by simpa using here
    refine runs_cons fun ahead => ?_
    rcases state with state | state
    · by_cases digit : isDigit byte = true
      · simp only [turn, state, digit, if_true, onward_go]
        exact inductionHypothesis later (Or.inl state)
      · simp only [turn, state, digit, Bool.false_eq_true, if_false, notSlash, continues, if_true,
          onward_go]
        exact (inductionHypothesis later (Or.inr rfl)).mono fun _ holds => holds
    · simp only [turn, state, continues, if_true, onward_go]
      exact inductionHypothesis later (Or.inr state)

theorem runs_user {before : List Byte} {user : List Byte × Option (List Byte)} {l : Locals}
    (good : Token (isAlnum · = true) NameByte user.1 ∧
      ∀ password ∈ user.2, Token (isUnreserved · = true) SecretByte password)
    (state : l.state.AtName) (fresh : l.uri.password = .empty) :
    Runs (turn after) before (userBytes (some user)) l fun before' l' =>
      UserRead user before' l.uri l' := by
  obtain ⟨name, password⟩ := user
  have enters (symbol : Byte) (ahead : List Byte) (starts : isAlnum symbol = true) :
      (turn after before symbol ahead l).Onward
        (· = { l with state := .usernameOrHostname, prevIt := before.length }) :=
    turn_atName state starts
  have loops (symbol : Byte) (before' ahead : List Byte) (continues : NameByte symbol) :
      (turn after before' symbol ahead
        { l with state := .usernameOrHostname, prevIt := before.length }).Onward
        (· = { l with state := .usernameOrHostname, prevIt := before.length }) := by
    simp only [turn, plain_eq_true continues, if_true, onward_go]
  have view (more : List Byte) : (StringView.range before.length (before ++ name).length).text
      (before ++ name ++ more) = some name :=
    StringView.text_range before name more rfl rfl rfl
  cases password with
  | none =>
    refine good.1.runs_append _ enters loops (runs_cons fun ahead => ?_)
    simp only [turn, plain_mark (.inr (.inl rfl)), Bool.false_eq_true, if_false, if_true, onward_go,
      (by decide : chr '@' ≠ chr ':')]
    exact runs_nil ⟨rfl, ⟨_, l.uri.password, rfl⟩, view _, by rw [fresh]; rfl⟩
  | some password =>
    have passwordToken := good.2 password rfl
    refine good.1.runs_append _ enters loops (runs_cons fun ahead => ?_)
    simp only [turn, plain_mark (.inl rfl), Bool.false_eq_true, if_false, if_true, onward_go]
    cases password with
    | nil => exact absurd passwordToken id
    | cons first others =>
      refine runs_cons fun ahead' => ?_
      have unreserved : isUnreserved first = true := passwordToken.1
      simp only [turn, unreserved, if_true, onward_go]
      refine (runs_password passwordToken.2 (Or.inl rfl)).append ?_
      rintro l' ⟨state', prevIt, uri⟩
      refine runs_cons fun ahead'' => ?_
      have notPlain : (isAlnum (chr '@') || decide (chr '@' = chr '%')) = false := by decide
      have ends : (turn after (before ++ name ++ [chr ':'] ++ [first] ++ others) (chr '@') ahead''
          l').Onward (· = { l' with
            state := .hostnameStart
            uri := { l'.uri with
              password := .range l'.prevIt
                (before ++ name ++ [chr ':'] ++ [first] ++ others).length } }) := by
        rcases state' with state' | state'
        · simp only [turn, state', notPlain, (by decide : isDigit (chr '@') = false),
            (by decide : chr '@' ≠ chr '/'), Bool.false_eq_true, if_false, if_true, onward_go]
        · simp only [turn, state', notPlain, Bool.false_eq_true, if_false, if_true, onward_go]
      refine ends.mono ?_
      rintro l'' rfl
      refine runs_nil ⟨rfl, ⟨_, _, by rw [uri]⟩, ?_, ?_⟩
      · rw [uri]
        have grown := view (chr ':' :: first :: (others ++ [chr '@']))
        simpa using grown
      · exact StringView.text_range (before ++ name ++ [chr ':']) (first :: others) [chr '@']
          (by simp) (by rw [prevIt]) (by simp)

/-- A host with an optional port, and the slash behind it. -/
structure HostRead (host : List Byte) (port : Option (List Byte)) (read : List Byte) (uri : Uri)
    (l : Locals) : Prop where
  state : l.state = .path
  prevIt : l.prevIt = read.length
  same : ∃ hostname portstr number,
    l.uri = { uri with hostname := hostname, portstr := portstr, port := number }
  hostname : l.uri.hostname.text read = some host
  portstr : l.uri.portstr.text read = some (port.getD [])
  port : l.uri.port.toNat = (port.map decimalValue).getD 80

/-- A host without a port has been read. -/
theorem hostRead_none {before host : List Byte} {uri : Uri} {l : Locals} (state : l.state = .path)
    (prevIt : l.prevIt = (before ++ host).length)
    (same : l.uri = { uri with hostname := .range before.length (before ++ host).length })
    (freshPortstr : uri.portstr = .empty) (freshPort : uri.port = 80) :
    HostRead host none (before ++ host ++ portBytes none) uri l where
  state := state
  prevIt := by simp [prevIt, portBytes]
  same := ⟨_, uri.portstr, uri.port, same⟩
  hostname := by
    rw [same]
    exact StringView.text_range before host _ rfl rfl rfl
  portstr := by
    rw [same, freshPortstr]
    rfl
  port := by
    rw [same, freshPort]
    rfl

/-- A host with a port has been read. -/
theorem hostRead_some {before host digits : List Byte} {uri : Uri} {l : Locals}
    (small : decimalValue digits ≤ 65535) (state : l.state = .path)
    (prevIt : l.prevIt = (before ++ host ++ [chr ':'] ++ digits).length)
    (same : l.uri = { uri with
      hostname := .range before.length (before ++ host).length
      portstr := .range (before ++ host ++ [chr ':']).length
        (before ++ host ++ [chr ':'] ++ digits).length
      port := UInt16.ofInt (decimalValue digits) }) :
    HostRead host (some digits) (before ++ host ++ portBytes (some digits)) uri l where
  state := state
  prevIt := by simp [prevIt, portBytes]
  same := ⟨_, _, _, same⟩
  hostname := by
    rw [same]
    exact StringView.text_range before host _ rfl rfl rfl
  portstr := by
    rw [same]
    exact StringView.text_range (before ++ host ++ [chr ':']) digits [] (by simp [portBytes]) rfl
      rfl
  port := by
    rw [same]
    exact toNat_ofInt_decimalValue small

/-- Behind a user, a host and a port up to the slash. -/
theorem runs_hostPort {before host digits : List Byte} {l : Locals}
    (goodHost : Token NameByte NameByte host)
    (token : Token (isDigit · = true) (isDigit · = true) digits)
    (state : l.state = .hostnameStart) :
    Runs (turn after) before (host ++ (portBytes (some digits) ++ [chr '/'])) l fun _ l' =>
      l' = ⟨.path, (before ++ host ++ [chr ':'] ++ digits).length, { l.uri with
        hostname := .range before.length (before ++ host).length
        portstr := .range (before ++ host ++ [chr ':']).length
          (before ++ host ++ [chr ':'] ++ digits).length
        port := portValue digits }⟩ := by
  refine goodHost.runs_append { l with state := .hostname, prevIt := before.length } ?_ ?_ ?_
  · intro symbol ahead starts
    simp only [turn, state, plain_eq_true starts, if_true, onward_go]
  · intro symbol before' ahead continues
    simp only [turn, plain_eq_true continues, if_true, onward_go]
  refine runs_cons fun ahead => ?_
  simp only [turn, plain_mark (.inl rfl), Bool.false_eq_true, if_false, if_true, onward_go]
  refine token.runs_append { l with
    state := .port
    prevIt := (before ++ host ++ [chr ':']).length
    uri := { l.uri with hostname := .range before.length (before ++ host).length } }
    ?_ ?_ (runs_cons fun ahead' => ?_)
  · intro symbol ahead' starts
    simp only [turn, starts, if_true, onward_go]
  · intro symbol before' ahead' continues
    simp only [turn, continues, if_true, onward_go]
  have ends := finishPort_token (before ++ host ++ [chr ':']) (ahead' ++ after)
    { l with
      state := .port
      prevIt := (before ++ host ++ [chr ':']).length
      uri := { l.uri with hostname := .range before.length (before ++ host).length } }
    token rfl
  simp only [turn, (by decide : isDigit (chr '/') = false), Bool.false_eq_true, if_false, if_true]
  rw [List.append_assoc _ _ after, List.cons_append, ends, onward_go]
  exact runs_nil rfl

/-- Behind a user the host is known to be one. -/
theorem runs_host {before host : List Byte} {port : Option (List Byte)} {l : Locals}
    (goodHost : Token (isAlnum · = true) NameByte host)
    (goodPort : ∀ digits ∈ port, Token (isDigit · = true) (isDigit · = true) digits ∧
      decimalValue digits ≤ 65535)
    (state : l.state = .hostnameStart) (freshPortstr : l.uri.portstr = .empty)
    (freshPort : l.uri.port = 80) :
    Runs (turn after) before (host ++ (portBytes port ++ [chr '/'])) l fun _ l' =>
      HostRead host port (before ++ host ++ portBytes port) l.uri l' := by
  have wide : Token NameByte NameByte host :=
    goodHost.imp (fun _ _ => nameByte_of_isAlnum) fun _ _ => id
  cases port with
  | none =>
    refine wide.runs_append { l with state := .hostname, prevIt := before.length } ?_ ?_ ?_
    · intro symbol ahead starts
      simp only [turn, state, plain_eq_true starts, if_true, onward_go]
    · intro symbol before' ahead continues
      simp only [turn, plain_eq_true continues, if_true, onward_go]
    refine runs_cons fun ahead => ?_
    simp only [turn, plain_mark (.inr (.inr rfl)), (by decide : chr '/' ≠ chr ':'),
      Bool.false_eq_true, if_false, if_true, onward_go]
    exact runs_nil (hostRead_none rfl rfl rfl freshPortstr freshPort)
  | some digits =>
    obtain ⟨token, small⟩ := goodPort digits rfl
    refine (runs_hostPort wide token state).mono ?_
    rintro l' rfl
    exact hostRead_some small rfl rfl (by rw [portValue_of_le small])

/-- Without a user, a host and a port up to the slash. The host is first taken for a user. -/
theorem runs_barePort {before host digits : List Byte} {l : Locals}
    (goodHost : Token (isAlnum · = true) NameByte host)
    (token : Token (isDigit · = true) (isDigit · = true) digits) (state : l.state.AtName) :
    Runs (turn after) before (host ++ (portBytes (some digits) ++ [chr '/'])) l fun _ l' =>
      l' = ⟨.path, (before ++ host ++ [chr ':'] ++ digits).length, { l.uri with
        hostname := .range before.length (before ++ host).length
        username := l.uri.hostname
        portstr := .range (before ++ host ++ [chr ':']).length
          (before ++ host ++ [chr ':'] ++ digits).length
        port := portValue digits }⟩ := by
  refine goodHost.runs_append { l with state := .usernameOrHostname, prevIt := before.length }
    ?_ ?_ (runs_cons fun ahead => ?_)
  · exact fun symbol ahead starts => turn_atName state starts
  · intro symbol before' ahead continues
    simp only [turn, plain_eq_true continues, if_true, onward_go]
  simp only [turn, plain_mark (.inl rfl), Bool.false_eq_true, if_false, if_true, onward_go]
  refine token.runs_append { l with
    state := .portOrPassword
    prevIt := (before ++ host ++ [chr ':']).length
    uri := { l.uri with username := .range before.length (before ++ host).length } }
    ?_ ?_ (runs_cons fun ahead' => ?_)
  · intro symbol ahead' starts
    have unreserved : isUnreserved symbol = true := by
      rw [isUnreserved, isAlnum, starts, Bool.or_true, Bool.true_or]
    simp only [turn, unreserved, if_true, onward_go]
  · intro symbol before' ahead' continues
    simp only [turn, continues, if_true, onward_go]
  have ends := finishPort_token (before ++ host ++ [chr ':']) (ahead' ++ after)
    { l with
      state := .portOrPassword
      prevIt := (before ++ host ++ [chr ':']).length
      uri := { l.uri with
        hostname := .range before.length (before ++ host).length
        username := l.uri.hostname } }
    token rfl
  simp only [turn, (by decide : isDigit (chr '/') = false), Bool.false_eq_true, if_false, if_true]
  rw [List.append_assoc _ _ after, List.cons_append, ends, onward_go]
  exact runs_nil rfl

/-- Without a user the host is first taken for one, and exchanged when a slash ends the port. -/
theorem runs_bareHost {before host : List Byte} {port : Option (List Byte)} {l : Locals}
    (goodHost : Token (isAlnum · = true) NameByte host)
    (goodPort : ∀ digits ∈ port, Token (isDigit · = true) (isDigit · = true) digits ∧
      decimalValue digits ≤ 65535)
    (state : l.state = .schemeEndSlashSlash) (freshUsername : l.uri.username = .empty)
    (freshHostname : l.uri.hostname = .empty) (freshPortstr : l.uri.portstr = .empty)
    (freshPort : l.uri.port = 80) :
    Runs (turn after) before (host ++ (portBytes port ++ [chr '/'])) l fun _ l' =>
      HostRead host port (before ++ host ++ portBytes port) l.uri l' := by
  cases port with
  | none =>
    refine goodHost.runs_append { l with state := .usernameOrHostname, prevIt := before.length }
      ?_ ?_ (runs_cons fun ahead => ?_)
    · intro symbol ahead starts
      simp only [turn, state, starts, if_true, onward_go]
    · intro symbol before' ahead continues
      simp only [turn, plain_eq_true continues, if_true, onward_go]
    simp only [turn, plain_mark (.inr (.inr rfl)), (by decide : chr '/' ≠ chr ':'),
      (by decide : chr '/' ≠ chr '@'), Bool.false_eq_true, if_false, if_true, onward_go]
    exact runs_nil (hostRead_none rfl rfl rfl freshPortstr freshPort)
  | some digits =>
    obtain ⟨token, small⟩ := goodPort digits rfl
    refine (runs_barePort goodHost token (.inr (.inr state))).mono ?_
    rintro l' rfl
    have bothEmpty : l.uri.hostname = l.uri.username := by rw [freshHostname, freshUsername]
    exact hostRead_some small rfl rfl (by rw [portValue_of_le small, bothEmpty])

/-- Everything before the path is read back. -/
theorem runs_front {text : UriText} (good : text.WellFormed) :
    Runs (turn after) [] (text.front ++ [chr '/']) ⟨.schemeStart, 0, Uri.fresh⟩ fun _ l =>
      AtPath text text.front l := by
  have shape : text.front ++ [chr '/'] = (text.scheme ++ ascii "://") ++
      (userBytes text.user ++ (text.host ++ (portBytes text.port ++ [chr '/']))) := by
    simp [UriText.front]
  have schemeView (more : List Byte) : (StringView.range 0 text.scheme.length).text
      (text.scheme ++ more) = some text.scheme :=
    StringView.text_range [] text.scheme more (by simp) rfl rfl
  rw [shape]
  refine (runs_scheme good).append ?_
  rintro l ⟨state, uri⟩
  cases user : text.user with
  | none =>
    have read : text.scheme ++ ascii "://" ++ text.host ++ portBytes text.port = text.front := by
      simp [UriText.front, user, userBytes]
    refine (runs_bareHost good.host good.port state (by rw [uri]; rfl) (by rw [uri]; rfl)
      (by rw [uri]; rfl) (by rw [uri]; rfl)).mono ?_
    rw [List.nil_append, read]
    rintro l' ⟨state', prevIt, ⟨hostname, portstr, number, same⟩, hostText, portText, portValue⟩
    rw [uri] at same
    refine ⟨state', prevIt, ⟨?_, ?_, ?_, hostText, portText, portValue⟩, ?_, ?_, ?_, ?_⟩
    · rw [same, ← read, List.append_assoc, List.append_assoc]
      exact schemeView _
    all_goals rw [same]
    · rw [user]
      rfl
    · rw [user]
      rfl
    all_goals rfl
  | some pair =>
    have read : text.scheme ++ ascii "://" ++ userBytes (some pair) ++ text.host ++
        portBytes text.port = text.front := by
      simp [UriText.front, user]
    obtain ⟨goodName, goodPassword⟩ := good.user pair user
    refine (runs_user ⟨goodName, fun password member => ?_⟩ (.inr (.inr state))
      (by rw [uri]; rfl)).append ?_
    · refine (goodPassword password member).imp (fun byte _ alnum => ?_) fun _ _ => Or.inl
      rw [isUnreserved, alnum, Bool.true_or]
    rintro l' ⟨state', ⟨username, password, same⟩, userText, passwordText⟩
    rw [uri] at same
    refine (runs_host good.host good.port state' (by rw [same]; rfl) (by rw [same]; rfl)).mono ?_
    rw [List.nil_append, read]
    rintro l'' ⟨state'', prevIt, ⟨hostname, portstr, number, same'⟩, hostText, portText, portValue⟩
    have userKept : l''.uri.username = l'.uri.username := by rw [same']
    have passwordKept : l''.uri.password = l'.uri.password := by rw [same']
    have grown {view : StringView} {content : List Byte}
        (denotes : view.text ([] ++ (text.scheme ++ ascii "://") ++ userBytes (some pair)) =
          some content) : view.text text.front = some content := by
      have longer := StringView.text_append denotes (text.host ++ portBytes text.port)
      rwa [List.nil_append, ← List.append_assoc, read] at longer
    refine ⟨state'', prevIt, ⟨?_, ?_, ?_, hostText, portText, portValue⟩, ?_, ?_, ?_, ?_⟩
    · rw [same', same, ← read]
      simpa using schemeView _
    · rw [userKept, user]
      exact grown userText
    · rw [passwordKept, user]
      exact grown passwordText
    all_goals
      rw [same', same]
      rfl

end Front

/-! ### The rest of the buffer -/

section Rest

variable {after : List Byte}

/-- All components but the queries have been read, and the query string lies where `parse_queries`
looks for it. -/
structure Ready (text : UriText) (buf : List Byte) (uri : Uri) : Prop where
  front : FrontRead text buf uri
  path : uri.path.text buf = some text.path
  fragment : uri.fragment.text buf = some text.fragment
  queries : uri.queries = []
  querystr : (text.queries = [] ∧ uri.querystr = .empty) ∨
    ∃ pre post : List Byte, buf = pre ++ queryText text.queries ++ post ∧
      uri.querystr = .range pre.length (pre ++ queryText text.queries).length

theorem parseQueries_ready {text : UriText} (good : text.WellFormed) {buf : List Byte} {uri : Uri}
    (ready : Ready text buf uri) :
    ∃ result, parseQueries buf uri = ⟨.completed, result⟩ ∧ Yields text buf result := by
  rcases ready.querystr with ⟨none, querystr⟩ | ⟨pre, post, split, querystr⟩
  · refine ⟨uri, parseQueries_empty querystr, ready.front, ready.path, ?_, ?_, ready.fragment⟩
    · rw [querystr, none]
      rfl
    · rw [ready.queries, none]
      exact .nil
  · have denotes : uri.querystr.text buf = some (queryText text.queries) := by
      rw [querystr]
      exact StringView.text_range pre _ post split rfl rfl
    obtain ⟨stored, parsed, read⟩ :=
      parseQueryText_queryText pre text.queries good.queries ready.queries
    refine ⟨{ uri with queries := stored }, ?_, ?_, ready.path, denotes, ?_, ready.fragment⟩
    · rw [parseQueries_range split querystr, parsed]
    · exact ready.front.withRest _ _ _ _
    · rw [split]
      exact read.imp fun _ _ query => query.append post

theorem queryText_ne_nil {queries : List (List Byte × List Byte)} (some : queries ≠ []) :
    queryText queries ≠ [] := by
  cases queries with
  | nil => exact absurd rfl some
  | cons query rest =>
    cases rest <;> exact List.append_ne_nil_of_right_ne_nil _ (List.cons_ne_nil _ _)

/-- No byte of a query string ends it. -/
theorem ne_hash_of_mem_queryText {queries : List (List Byte × List Byte)}
    (good : ∀ query ∈ queries, Token NameByte NameByte query.1 ∧ Token NameByte NameByte query.2) :
    ∀ byte ∈ queryText queries, byte ≠ chr '#' := by
  have notHash {byte : Byte} (name : NameByte byte) : byte ≠ chr '#' := by
    rintro rfl
    exact absurd name (by decide)
  induction queries with
  | nil => exact fun byte member => absurd member List.not_mem_nil
  | cons query rest inductionHypothesis =>
    obtain ⟨⟨nameToken, valueToken⟩, later⟩ := List.forall_mem_cons.mp good
    have one : ∀ byte ∈ query.1 ++ chr '=' :: query.2, byte ≠ chr '#' := by
      intro byte member
      rcases List.mem_append.mp member with inName | behind
      · exact notHash (nameToken.forall_mem byte inName)
      · rcases List.mem_cons.mp behind with rfl | inValue
        · decide
        · exact notHash (valueToken.forall_mem byte inValue)
    cases rest with
    | nil => exact one
    | cons next others =>
      intro byte member
      have split : queryText (query :: next :: others) =
          (query.1 ++ chr '=' :: query.2) ++ chr '&' :: queryText (next :: others) := by
        simp [queryText]
      rw [split] at member
      rcases List.mem_append.mp member with here | behind
      · exact one byte here
      · rcases List.mem_cons.mp behind with rfl | there
        · decide
        · exact inductionHypothesis later byte there

variable (after) in
/-- The path is read on to its end. -/
theorem runs_path {text : UriText} (good : text.WellFormed) :
    Runs (turn after) [] (text.front ++ text.path) ⟨.schemeStart, 0, Uri.fresh⟩ fun _ l =>
      AtPath text text.front l := by
  have path := good.path
  cases same : text.path with
  | nil => exact absurd same path.ne_nil
  | cons slash others =>
    rw [same] at path
    obtain ⟨rfl, plain⟩ := path
    have split : text.front ++ chr '/' :: others = (text.front ++ [chr '/']) ++ others := by simp
    rw [split]
    refine (runs_front good).append fun l atPath => runs_loop ?_ atPath
    intro byte member before ahead
    obtain ⟨notQuestion, notHash⟩ := plain byte member
    simp only [turn, atPath.state, notQuestion, notHash, if_false, onward_go]

/-- The parser stands in the query string, or behind it at the end of the buffer. -/
structure InQuery (text : UriText) (l : Locals) : Prop where
  state : l.state = .query
  prevIt : l.prevIt = (text.front ++ text.path ++ [chr '?']).length
  front : FrontRead text text.front l.uri
  path : l.uri.path = .range text.front.length (text.front ++ text.path).length
  querystr : l.uri.querystr = .empty
  queries : l.uri.queries = []
  fragment : l.uri.fragment = .empty

variable (after) in
theorem runs_querystr {text : UriText} (good : text.WellFormed) (some : text.queries ≠ []) :
    Runs (turn after) [] (text.front ++ text.path ++ chr '?' :: queryText text.queries)
      ⟨.schemeStart, 0, Uri.fresh⟩ fun _ l => InQuery text l := by
  refine (runs_path after good).append fun l atPath => runs_cons fun ahead => ?_
  simp only [turn, atPath.state, (by decide : chr '?' ≠ chr '#'), if_false, if_true, onward_go]
  cases same : queryText text.queries with
  | nil => exact absurd same (queryText_ne_nil some)
  | cons first others =>
    have plain := ne_hash_of_mem_queryText good.queries
    rw [same] at plain
    refine runs_cons fun ahead' => ?_
    simp only [turn, onward_go]
    refine runs_loop ?_ ⟨rfl, ?_, atPath.front.withRest _ _ _ _, ?_, atPath.querystr,
      atPath.queries, atPath.fragment⟩
    · intro byte member before ahead''
      have notHash := plain byte (List.mem_cons_of_mem _ member)
      simp only [turn, notHash, if_false, onward_go]
    · rw [List.nil_append]
    · rw [atPath.prevIt, List.nil_append]

/-- The first byte of a fragment ends the loop. -/
theorem feed_fragment {before fragment : List Byte} {l : Locals} (some : fragment ≠ [])
    (state : l.state = .hashStart) :
    feed (turn after) before fragment [] 0 l = .left (parseQueries (before ++ fragment)
      { l.uri with fragment := .range before.length (before ++ fragment).length }) := by
  cases fragment with
  | nil => exact absurd rfl some
  | cons first others =>
    have left : turn after before first (others ++ []) l = .leave (parseQueries
        (before ++ first :: others) { l.uri with
          fragment := .range before.length (before ++ first :: others).length }) [] := by
      simp only [turn, state, List.append_nil]
    exact feed_cons_leave left

variable (after) in
/-- Where a hash ends a stretch, the queries are parsed with the rest as the fragment. -/
theorem parse_fragment {read fragment : List Byte} (post : List Byte → Locals → Prop)
    (some : fragment ≠ [])
    (runs : Runs (turn after) [] (read ++ [chr '#']) ⟨.schemeStart, 0, Uri.fresh⟩ post)
    (hash : ∀ before l, post before l → l.state = .hashStart) :
    ∃ l, post (read ++ [chr '#']) l ∧
      parse after Uri.fresh (read ++ chr '#' :: fragment) =
        parseQueries (read ++ chr '#' :: fragment) { l.uri with
          fragment := .range (read ++ [chr '#']).length (read ++ chr '#' :: fragment).length } := by
  have split : read ++ chr '#' :: fragment = read ++ [chr '#'] ++ fragment := by simp
  obtain ⟨l, inside, holds⟩ := runs.feed (fragment ++ [])
  refine ⟨l, holds, ?_⟩
  rw [split, parse, run, feed_append_of_inside inside, feed_fragment some (hash _ _ holds)]
  rfl

variable (after) in
/-- The path is the last component but for the fragment. -/
theorem parse_noQueries {text : UriText} (good : text.WellFormed) (none : text.queries = []) :
    ∃ uri, parse after Uri.fresh text.bytes = parseQueries text.bytes uri ∧
      Ready text text.bytes uri := by
  have pathText (more : List Byte) :
      (StringView.range text.front.length (text.front ++ text.path).length).text
        (text.front ++ text.path ++ more) = some text.path :=
    StringView.text_range text.front text.path more rfl rfl rfl
  by_cases absent : text.fragment = []
  · have bytes : text.bytes = text.front ++ text.path ++ [] := by
      simp [UriText.bytes, none, absent, queryText, optionalBytes]
    rw [bytes]
    obtain ⟨l, inside, atPath⟩ := (runs_path after good).feed []
    refine ⟨{ l.uri with path := .range text.front.length (text.front ++ text.path).length }, ?_,
      ?_, pathText [], ?_, atPath.queries, Or.inl ⟨none, atPath.querystr⟩⟩
    · have empty : l.uri.path.size = 0 := by
        rw [atPath.path]
        rfl
      have noQuery : parseQueries (text.front ++ text.path) { l.uri with
          path := .range text.front.length (text.front ++ text.path).length } = ⟨.completed, _⟩ :=
        parseQueries_empty atPath.querystr
      rw [List.append_nil, parse, run, inside, noQuery]
      simp only [finish, empty, if_true, atPath.prevIt]
    · rw [List.append_assoc]
      exact (atPath.front.append _).withRest _ _ _ _
    · rw [atPath.fragment, absent]
      rfl
  · have bytes : text.bytes = text.front ++ text.path ++ chr '#' :: text.fragment := by
      cases same : text.fragment with
      | nil => exact absurd same absent
      | cons first others => simp [UriText.bytes, none, same, queryText, optionalBytes]
    rw [bytes]
    obtain ⟨l, ⟨state, front, path, querystr, queries⟩, parsed⟩ :=
      parse_fragment after (fun _ l => l.state = .hashStart ∧
        FrontRead text text.front l.uri ∧
        l.uri.path = .range text.front.length (text.front ++ text.path).length ∧
        l.uri.querystr = .empty ∧ l.uri.queries = []) absent
        ((runs_path after good).append fun l atPath => runs_cons fun ahead => by
          simp only [turn, atPath.state, if_true, onward_go]
          refine runs_nil ⟨rfl, atPath.front.withRest _ _ _ _, ?_, atPath.querystr, atPath.queries⟩
          rw [atPath.prevIt, List.nil_append])
        (fun _ _ holds => holds.1)
    refine ⟨_, parsed, ?_, ?_, ?_, queries, Or.inl ⟨none, querystr⟩⟩
    · rw [List.append_assoc]
      exact (front.append _).withRest _ _ _ _
    · rw [path]
      exact pathText _
    · exact StringView.text_range _ text.fragment [] (by simp) rfl (by simp)

variable (after) in
/-- The query string is the last component but for the fragment. -/
theorem parse_queries {text : UriText} (good : text.WellFormed) (present : text.queries ≠ []) :
    ∃ uri, parse after Uri.fresh text.bytes = parseQueries text.bytes uri ∧
      Ready text text.bytes uri := by
  have optional : optionalBytes (chr '?') (queryText text.queries) =
      chr '?' :: queryText text.queries := by
    cases same : queryText text.queries with
    | nil => exact absurd same (queryText_ne_nil present)
    | cons first others => rfl
  have pathText (more : List Byte) :
      (StringView.range text.front.length (text.front ++ text.path).length).text
        (text.front ++ text.path ++ more) = some text.path :=
    StringView.text_range text.front text.path more rfl rfl rfl
  by_cases absent : text.fragment = []
  · have bytes : text.bytes = text.front ++ text.path ++ chr '?' :: queryText text.queries := by
      rw [UriText.bytes, optional, absent]
      simp [optionalBytes]
    rw [bytes]
    obtain ⟨l, inside, inQuery⟩ := (runs_querystr after good present).feed []
    refine ⟨{ l.uri with
      querystr := .range (text.front ++ text.path ++ [chr '?']).length
        (text.front ++ text.path ++ chr '?' :: queryText text.queries).length }, ?_,
      ?_, ?_, ?_, inQuery.queries,
      Or.inr ⟨text.front ++ text.path ++ [chr '?'], [], by simp, by simp⟩⟩
    · have longer : text.path ≠ [] := good.path.ne_nil
      have notEmpty : l.uri.path.size ≠ 0 := by
        have size := StringView.size_of_text (pathText [])
        rw [inQuery.path, size]
        have := List.length_pos_iff.mpr longer
        omega
      have empty : l.uri.querystr.size = 0 := by
        rw [inQuery.querystr]
        rfl
      rw [parse, run, inside]
      simp only [finish, notEmpty, empty, if_true, if_false, inQuery.prevIt]
    · rw [List.append_assoc]
      exact (inQuery.front.append _).withRest _ _ _ _
    · show l.uri.path.text _ = _
      rw [inQuery.path]
      exact pathText _
    · show l.uri.fragment.text _ = _
      rw [inQuery.fragment, absent]
      rfl
  · have bytes : text.bytes = (text.front ++ text.path ++ chr '?' :: queryText text.queries) ++
        chr '#' :: text.fragment := by
      cases same : text.fragment with
      | nil => exact absurd same absent
      | cons first others =>
        rw [UriText.bytes, optional, same]
        simp [optionalBytes]
    rw [bytes]
    obtain ⟨l, ⟨state, front, path, querystr, queries⟩, parsed⟩ :=
      parse_fragment after (fun _ l => l.state = .hashStart ∧
        FrontRead text text.front l.uri ∧
        l.uri.path = .range text.front.length (text.front ++ text.path).length ∧
        l.uri.querystr = .range (text.front ++ text.path ++ [chr '?']).length
          (text.front ++ text.path ++ chr '?' :: queryText text.queries).length ∧
        l.uri.queries = []) absent
        ((runs_querystr after good present).append fun l inQuery => runs_cons fun ahead => by
          simp only [turn, inQuery.state, if_true, onward_go]
          refine runs_nil ⟨rfl, inQuery.front.withRest _ _ _ _, inQuery.path, ?_, inQuery.queries⟩
          rw [inQuery.prevIt, List.nil_append])
        (fun _ _ holds => holds.1)
    refine ⟨_, parsed, ?_, ?_, ?_, queries, Or.inr ⟨text.front ++ text.path ++ [chr '?'],
      chr '#' :: text.fragment, by simp, ?_⟩⟩
    · rw [List.append_assoc, List.append_assoc]
      exact (front.append _).withRest _ _ _ _
    · rw [path, List.append_assoc (text.front ++ text.path)]
      exact pathText _
    · exact StringView.text_range _ text.fragment [] (by simp) rfl (by simp)
    · rw [querystr]
      simp

end Rest

/-- Every uri is read back. -/
theorem parse_bytes (text : UriText) (good : text.WellFormed) (after : List Byte) :
    ∃ uri, parse after Uri.fresh text.bytes = ⟨.completed, uri⟩ ∧ Yields text text.bytes uri := by
  by_cases none : text.queries = []
  · obtain ⟨uri, parsed, ready⟩ := parse_noQueries after good none
    rw [parsed]
    exact parseQueries_ready good ready
  · obtain ⟨uri, parsed, ready⟩ := parse_queries after good none
    rw [parsed]
    exact parseQueries_ready good ready

/-- A uri with all components, and a password that starts like a port. -/
def accountUri : UriText where
  scheme := ascii "http"
  user := some (ascii "me", some (ascii "7a"))
  host := ascii "host"
  port := some (ascii "8080")
  path := ascii "/path"
  queries := [(ascii "n", ascii "v"), (ascii "m", ascii "w")]
  fragment := ascii "top"

theorem parse_bytes_account :
    ∃ uri, parse [] Uri.fresh (ascii "http://me:7a@host:8080/path?n=v&m=w#top") =
        ⟨.completed, uri⟩ ∧
      Yields accountUri (ascii "http://me:7a@host:8080/path?n=v&m=w#top") uri := by
  have bytes : accountUri.bytes = ascii "http://me:7a@host:8080/path?n=v&m=w#top" := by decide
  have good : accountUri.WellFormed :=
    ⟨by decide, by decide, by decide, by decide, by decide, by decide⟩
  rw [← bytes]
  exact parse_bytes accountUri good []

end UriParser

end Sheep
