/-
This file says what a completed uri is worth. The trail of a state gives the bytes
read so far as components, and the uri as the places of these components. Behind
the slash of a path the trail leads to components that cover the buffer, or to an
error. A buffer that ends before that slash is completed just the same, with its
last component taken for the path.
-/

import Sheep.UriRoundTrip

namespace Sheep

open ScanLoop

namespace UriParser

/-! ### Components and their places -/

abbrev IsScheme (text : List Byte) : Prop := ∀ byte ∈ text, SchemeByte byte

/-- What a buffer is cut into. A query or a fragment that is empty is absent. -/
structure UriParts where
  scheme : List Byte
  slashes : List Byte
  user : Option (List Byte × Option (List Byte))
  host : List Byte
  port : Option (List Byte)
  path : List Byte
  query : List Byte
  fragment : List Byte

/-- The view of a part that stands behind `before`. -/
def span (before part : List Byte) : StringView := .range before.length (before ++ part).length

/-- The view of a part that may be absent. -/
def optionalSpan (before : List Byte) : List Byte → StringView
  | [] => .empty
  | part => span before part

theorem optionalSpan_of_ne_nil (before : List Byte) {part : List Byte} (some : part ≠ []) :
    optionalSpan before part = span before part := by
  cases part with
  | nil => exact absurd rfl some
  | cons first others => rfl

def usernameSpan (lead : List Byte) : Option (List Byte × Option (List Byte)) → StringView
  | none => .empty
  | some (name, _) => span lead name

def passwordSpan (lead : List Byte) : Option (List Byte × Option (List Byte)) → StringView
  | some (name, some secret) => span (lead ++ name ++ [chr ':']) secret
  | _ => .empty

def portSpan (before : List Byte) : Option (List Byte) → StringView
  | none => .empty
  | some digits => span (before ++ [chr ':']) digits

namespace UriParts

variable (parts : UriParts)

def lead : List Byte := parts.scheme ++ chr ':' :: parts.slashes

def beforeHost : List Byte := parts.lead ++ userBytes parts.user

def afterHost : List Byte := parts.beforeHost ++ parts.host

def front : List Byte := parts.afterHost ++ portBytes parts.port

def afterPath : List Byte := parts.front ++ parts.path

def afterQuery : List Byte := parts.afterPath ++ optionalBytes (chr '?') parts.query

def bytes : List Byte := parts.afterQuery ++ optionalBytes (chr '#') parts.fragment

/-- The components before the path, where they stand. -/
def placedFront : Uri where
  scheme := span [] parts.scheme
  username := usernameSpan parts.lead parts.user
  password := passwordSpan parts.lead parts.user
  hostname := span parts.beforeHost parts.host
  portstr := portSpan parts.afterHost parts.port

/-- All components, where they stand. -/
def placed : Uri := { parts.placedFront with
  path := span parts.front parts.path
  querystr := optionalSpan (parts.afterPath ++ [chr '?']) parts.query
  fragment := optionalSpan (parts.afterQuery ++ [chr '#']) parts.fragment }

theorem afterQuery_of_ne_nil {query : List Byte} (some : query ≠ []) :
    { parts with query }.afterQuery = parts.afterPath ++ [chr '?'] ++ query := by
  cases query with
  | nil => exact absurd rfl some
  | cons first others =>
    rw [List.append_assoc]
    rfl

/-- The components are as they should be, but for a scheme that may be missing. -/
structure Shaped : Prop where
  scheme : IsScheme parts.scheme
  slashes : ∀ byte ∈ parts.slashes, byte = chr '/'
  host : parts.host ≠ []
  path : ∀ first ∈ parts.path.head?, first = chr '/'
  pathPlain : ∀ byte ∈ parts.path, byte ≠ chr '?' ∧ byte ≠ chr '#'
  query : ∀ byte ∈ parts.query, byte ≠ chr '#'

structure Good : Prop extends parts.Shaped where
  named : parts.scheme ≠ []

end UriParts

/-- The components of the uri are ranges of the buffer, in order, and cover it but for the
separators. -/
def Covered (buf : List Byte) (uri : Uri) : Prop :=
  ∃ parts : UriParts, parts.Shaped ∧ buf = parts.bytes ∧
    ∃ port queries, uri = { parts.placed with port, queries }

/-- And there is a scheme. -/
def Sound (buf : List Byte) (uri : Uri) : Prop :=
  ∃ parts : UriParts, parts.Good ∧ buf = parts.bytes ∧
    ∃ port queries, uri = { parts.placed with port, queries }

theorem Sound.covered {buf : List Byte} {uri : Uri} (sound : Sound buf uri) : Covered buf uri := by
  obtain ⟨parts, good, whole⟩ := sound
  exact ⟨parts, good.toShaped, whole⟩

/-! ### Buffers without a path -/

/-- A name behind the slashes: it may turn out to be a user or a host. -/
abbrev IsName (text : List Byte) : Prop := Token (isAlnum · = true) NameByte text

/-- A host behind a user may start with any byte of a name. -/
abbrev IsHost (text : List Byte) : Prop := Token NameByte NameByte text

abbrev IsSecret (text : List Byte) : Prop := Token (isUnreserved · = true) SecretByte text

def IsUser (user : List Byte × Option (List Byte)) : Prop :=
  IsName user.1 ∧ ∀ secret ∈ user.2, IsSecret secret

/-- What may stand behind the slashes as long as no path has begun. -/
inductive OpenAuthority : List Byte → Prop
  | nothing : OpenAuthority []
  | name {name : List Byte} (isName : IsName name) : OpenAuthority name
  | colon {name : List Byte} (isName : IsName name) : OpenAuthority (name ++ [chr ':'])
  | secret {name secret : List Byte} (isName : IsName name) (isSecret : IsSecret secret) :
      OpenAuthority (name ++ chr ':' :: secret)
  | user {user : List Byte × Option (List Byte)} (isUser : IsUser user) :
      OpenAuthority (userBytes (some user))
  | host {user : List Byte × Option (List Byte)} {host : List Byte} (isUser : IsUser user)
      (isHost : IsHost host) : OpenAuthority (userBytes (some user) ++ host)
  | port {user : List Byte × Option (List Byte)} {host digits : List Byte} (isUser : IsUser user)
      (isHost : IsHost host) (allDigits : ∀ byte ∈ digits, isDigit byte = true) :
      OpenAuthority (userBytes (some user) ++ host ++ chr ':' :: digits)

/-- The scheme, its colon and at most two slashes. -/
def IsLead (scheme lead : List Byte) : Prop :=
  IsScheme scheme ∧ ∃ slashes, (slashes = [] ∨ slashes = ascii "/" ∨ slashes = ascii "//") ∧
    lead = scheme ++ chr ':' :: slashes

/-- The buffer ends before the slash of a path. -/
inductive Unfinished : List Byte → Prop
  | scheme {scheme : List Byte} (isScheme : IsScheme scheme) : Unfinished scheme
  | authority {scheme lead rest : List Byte} (isLead : IsLead scheme lead)
      (isOpen : OpenAuthority rest) : Unfinished (lead ++ rest)

/-! ### Queries -/

/-- A turn of the query loop touches nothing but the queries. -/
theorem queryTurn_same {offset : Int} {before ahead : List Byte} {curChar : Byte}
    {l : QueryLocals} {uri : Uri} (same : ∃ queries, l.uri = { uri with queries }) :
    (queryTurn offset before curChar ahead l).Leads
      (fun skip next => skip = 0 ∧ ∃ queries, next.uri = { uri with queries })
      (fun outcome => ∃ queries, outcome.uri = { uri with queries }) := by
  obtain ⟨queries, stored⟩ := same
  unfold queryTurn
  cases l.state <;> simp only
  case queryValue =>
    split
    · exact ⟨rfl, queries, stored⟩
    · split
      · exact ⟨rfl, _, by rw [stored]⟩
      · exact ⟨queries, stored⟩
  case queryName | queryValueStart | newQueryStart =>
    repeat' split
    all_goals first | exact ⟨rfl, queries, stored⟩ | exact ⟨queries, stored⟩
  all_goals exact ⟨queries, stored⟩

theorem queryEnd_same {last : Int} {l : QueryLocals} {uri : Uri}
    (same : ∃ queries, l.uri = { uri with queries }) :
    ∃ queries, (queryEnd last l).uri = { uri with queries } := by
  obtain ⟨queries, stored⟩ := same
  unfold queryEnd
  split
  · exact ⟨_, by rw [stored]⟩
  · exact ⟨queries, stored⟩

/-- Parsing a query string touches nothing but the queries. -/
theorem parseQueryText_same (offset : Int) (text : List Byte) (uri : Uri) :
    ∃ queries, (parseQueryText offset text uri).uri = { uri with queries } := by
  cases text with
  | nil => exact ⟨uri.queries, rfl⟩
  | cons first others =>
    unfold parseQueryText
    simp only
    split
    · exact ⟨uri.queries, rfl⟩
    · have leads : (feed (queryTurn offset) [] (first :: others) [] 0
          ⟨.queryName, offset, .empty, uri⟩).Leads
          (fun skip (l : QueryLocals) => skip = 0 ∧ ∃ queries, l.uri = { uri with queries })
          (fun outcome => ∃ queries, outcome.uri = { uri with queries }) :=
        feed_invariant_of_no_jump
          (fun _ (l : QueryLocals) => ∃ queries, l.uri = { uri with queries })
          ⟨uri.queries, rfl⟩ fun _ _ _ _ _ same => queryTurn_same same
      unfold run
      generalize feed (queryTurn offset) [] (first :: others) [] 0 _ = ended at leads ⊢
      cases ended with
      | left outcome => exact leads
      | inside skip l =>
        obtain ⟨rfl, same⟩ := leads
        exact queryEnd_same same

/-- A query string that is accepted starts with a byte of a name. -/
theorem nameByte_of_parseQueryText {offset : Int} {first : Byte} {others : List Byte} {uri : Uri}
    (completed : (parseQueryText offset (first :: others) uri).verdict = .completed) :
    NameByte first := by
  unfold parseQueryText at completed
  simp only at completed
  split at completed
  · cases completed
  · rename_i plain
    by_cases unreserved : isUnreserved first = true
    · exact Or.inl unreserved
    · refine Or.inr (not_not.mp fun other => plain ?_)
      simp [unreserved, other]

/-- From the slash of the path on these components are good. -/
structure UriParts.Reading (parts : UriParts) : Prop where
  scheme : IsScheme parts.scheme
  slashes : ∀ byte ∈ parts.slashes, byte = chr '/'
  host : parts.host ≠ []
  path : Token (· = chr '/') (fun byte => byte ≠ chr '?' ∧ byte ≠ chr '#') parts.path

/-- The first byte of a query string is not looked at until the end. -/
abbrev IsQuery (text : List Byte) : Prop := Token (fun _ => True) (· ≠ chr '#') text

/-- A query string that is accepted does not start with a hash. -/
theorem covered_of_completed (parts : UriParts) {buf : List Byte} {uri : Uri}
    (reading : parts.Reading) (query : parts.query = [] ∨ IsQuery parts.query)
    (split : buf = parts.bytes)
    (place : ∃ port, uri = { parts.placed with port := port })
    (completed : (parseQueries buf uri).verdict = .completed) :
    Covered buf (parseQueries buf uri).uri := by
  obtain ⟨port, place⟩ := place
  have good (plain : ∀ byte ∈ parts.query, byte ≠ chr '#') : parts.Shaped := by
    refine ⟨reading.scheme, reading.slashes, reading.host, ?_, ?_, plain⟩
    · intro first member
      have starts := reading.path
      rw [List.eq_cons_of_mem_head? member] at starts
      exact starts.1
    · refine (reading.path.imp ?_ fun _ _ plain => plain).forall_mem
      rintro byte - rfl
      decide
  cases same : parts.query with
  | nil =>
    have none : uri.querystr = .empty := by
      rw [place]
      show optionalSpan _ parts.query = .empty
      rw [same]
      rfl
    rw [parseQueries_empty none]
    refine ⟨parts, good ?_, split, port, [], place⟩
    rw [same]
    exact fun byte member => absurd member List.not_mem_nil
  | cons first others =>
    have placeQuery : uri.querystr = span (parts.afterPath ++ [chr '?']) (first :: others) := by
      rw [place]
      show optionalSpan _ parts.query = _
      rw [same]
      rfl
    have cut : buf = parts.afterPath ++ [chr '?'] ++ (first :: others) ++
        optionalBytes (chr '#') parts.fragment := by
      rw [split, UriParts.bytes, UriParts.afterQuery, same]
      simp [optionalBytes]
    rw [parseQueries_range cut placeQuery] at completed ⊢
    have starts := nameByte_of_parseQueryText completed
    obtain ⟨queries, stored⟩ := parseQueryText_same (parts.afterPath ++ [chr '?']).length
      (first :: others) uri
    refine ⟨parts, good ?_, split, port, queries, by rw [stored, place]⟩
    rw [same] at query ⊢
    refine List.forall_mem_cons.mpr ⟨?_, (query.resolve_left (List.cons_ne_nil _ _)).2⟩
    rintro rfl
    exact absurd starts (by decide)

/-! ### The trail of a state -/

def placeScheme (scheme : List Byte) : Uri := { scheme := span [] scheme }

/-- Whoever stands before the host. -/
def placeUser (scheme lead : List Byte) (user : List Byte × Option (List Byte)) : Uri :=
  { placeScheme scheme with
    username := usernameSpan lead (some user), password := passwordSpan lead (some user) }

def beforeHost (lead : List Byte) (user : List Byte × Option (List Byte)) : List Byte :=
  lead ++ userBytes (some user)

def placeHost (scheme lead : List Byte) (user : List Byte × Option (List Byte))
    (host : List Byte) : Uri :=
  { placeUser scheme lead user with hostname := span (beforeHost lead user) host }

/-- What has been read in each state before the path, and what is stored. -/
inductive FrontTrail : List Byte → Locals → Prop
  | schemeStart {scheme : List Byte} (isScheme : IsScheme scheme) :
      FrontTrail scheme ⟨.schemeStart, 0, Uri.fresh⟩
  | schemeEnd {scheme : List Byte} (isScheme : IsScheme scheme) :
      FrontTrail (scheme ++ chr ':' :: []) ⟨.schemeEnd, 0, placeScheme scheme⟩
  | schemeEndSlash {scheme : List Byte} (isScheme : IsScheme scheme) :
      FrontTrail (scheme ++ chr ':' :: ascii "/") ⟨.schemeEndSlash, 0, placeScheme scheme⟩
  | schemeEndSlashSlash {scheme : List Byte} (isScheme : IsScheme scheme) :
      FrontTrail (scheme ++ chr ':' :: ascii "//") ⟨.schemeEndSlashSlash, 0, placeScheme scheme⟩
  | usernameOrHostname {scheme lead name : List Byte} (isLead : IsLead scheme lead)
      (isName : IsName name) :
      FrontTrail (lead ++ name) ⟨.usernameOrHostname, lead.length, placeScheme scheme⟩
  | portOrPasswordStart {scheme lead name : List Byte} (isLead : IsLead scheme lead)
      (isName : IsName name) :
      FrontTrail (lead ++ name ++ [chr ':']) ⟨.portOrPasswordStart, lead.length,
        { placeScheme scheme with username := span lead name }⟩
  | portOrPassword {scheme lead name secret : List Byte} {state : State}
      (either : state = .portOrPassword ∨ state = .password) (isLead : IsLead scheme lead)
      (isName : IsName name) (isSecret : IsSecret secret) :
      FrontTrail (lead ++ name ++ [chr ':'] ++ secret) ⟨state,
        (lead ++ name ++ [chr ':']).length, { placeScheme scheme with username := span lead name }⟩
  | hostnameStart {scheme lead : List Byte} {user : List Byte × Option (List Byte)}
      {prevIt : Int} (isLead : IsLead scheme lead) (isUser : IsUser user) :
      FrontTrail (beforeHost lead user) ⟨.hostnameStart, prevIt, placeUser scheme lead user⟩
  | hostname {scheme lead host : List Byte} {user : List Byte × Option (List Byte)}
      (isLead : IsLead scheme lead) (isUser : IsUser user) (isHost : IsHost host) :
      FrontTrail (beforeHost lead user ++ host) ⟨.hostname, (beforeHost lead user).length,
        placeUser scheme lead user⟩
  | portStart {scheme lead host : List Byte} {user : List Byte × Option (List Byte)}
      (isLead : IsLead scheme lead) (isUser : IsUser user) (isHost : IsHost host) :
      FrontTrail (beforeHost lead user ++ host ++ [chr ':']) ⟨.portStart,
        (beforeHost lead user).length, placeHost scheme lead user host⟩
  | port {scheme lead host digits : List Byte} {user : List Byte × Option (List Byte)}
      (isLead : IsLead scheme lead) (isUser : IsUser user) (isHost : IsHost host)
      (isPort : Token (isDigit · = true) (isDigit · = true) digits) :
      FrontTrail (beforeHost lead user ++ host ++ [chr ':'] ++ digits) ⟨.port,
        (beforeHost lead user ++ host ++ [chr ':']).length, placeHost scheme lead user host⟩

/-- What has been stored when the path has ended. -/
def UriParts.placedPath (parts : UriParts) : Uri :=
  { parts.placedFront with path := span parts.front parts.path }

/-- What has been read from the path on, and what is stored. -/
inductive RestTrail : List Byte → Locals → Prop
  | path {parts : UriParts} {port : UInt16} (reading : parts.Reading) :
      RestTrail parts.afterPath
        ⟨.path, parts.front.length, { parts.placedFront with port := port }⟩
  | pathHash {parts : UriParts} {port : UInt16} (reading : parts.Reading) :
      RestTrail (parts.afterPath ++ [chr '#'])
        ⟨.hashStart, parts.front.length, { parts.placedPath with port := port }⟩
  | queryStart {parts : UriParts} {port : UInt16} (reading : parts.Reading) :
      RestTrail (parts.afterPath ++ [chr '?'])
        ⟨.queryStart, parts.front.length, { parts.placedPath with port := port }⟩
  | query {parts : UriParts} {query : List Byte} {port : UInt16} (reading : parts.Reading)
      (isQuery : IsQuery query) :
      RestTrail (parts.afterPath ++ [chr '?'] ++ query)
        ⟨.query, (parts.afterPath ++ [chr '?']).length, { parts.placedPath with port := port }⟩
  | queryHash {parts : UriParts} {query : List Byte} {port : UInt16} (reading : parts.Reading)
      (isQuery : IsQuery query) :
      RestTrail (parts.afterPath ++ [chr '?'] ++ query ++ [chr '#'])
        ⟨.hashStart, (parts.afterPath ++ [chr '?']).length, { parts.placedPath with
          querystr := span (parts.afterPath ++ [chr '?']) query, port := port }⟩

/-- The trail of a loop that stands somewhere in the buffer. -/
def Trail (before : List Byte) (l : Locals) : Prop := FrontTrail before l ∨ RestTrail before l

section Turns

variable {after before ahead : List Byte} {curChar : Byte} {l : Locals}

theorem nameByte_of_plain (plain : (isUnreserved curChar || decide (curChar = chr '%')) = true) :
    NameByte curChar := by
  simpa using plain

theorem enters_path {scheme lead host : List Byte} (user : Option (List Byte × Option (List Byte)))
    (port : Option (List Byte)) {uri : Uri} (isLead : IsLead scheme lead) (some : host ≠ [])
    (read : before = lead ++ userBytes user ++ host ++ portBytes port) (slash : curChar = chr '/')
    (place : ∃ number, uri = { placeScheme scheme with
      username := usernameSpan lead user
      password := passwordSpan lead user
      hostname := span (lead ++ userBytes user) host
      portstr := portSpan (lead ++ userBytes user ++ host) port
      port := number }) :
    Trail (before ++ [curChar]) ⟨.path, before.length, uri⟩ := by
  obtain ⟨isScheme, slashes, few, rfl⟩ := isLead
  obtain ⟨number, rfl⟩ := place
  subst read slash
  have allSlashes : ∀ byte ∈ slashes, byte = chr '/' := by
    rcases few with rfl | rfl | rfl <;> decide +kernel
  let parts : UriParts := ⟨scheme, slashes, user, host, port, [chr '/'], [], []⟩
  have reading : parts.Reading := ⟨isScheme, allSlashes, some, token_singleton rfl⟩
  exact Or.inr (RestTrail.path reading)

theorem isLead_of_isScheme {scheme slashes : List Byte} (isScheme : IsScheme scheme)
    (few : slashes = [] ∨ slashes = ascii "/" ∨ slashes = ascii "//") :
    IsLead scheme (scheme ++ chr ':' :: slashes) := ⟨isScheme, slashes, few, rfl⟩

/-- A name starts behind the colon and the slashes. -/
theorem enters_name {scheme lead : List Byte} (isLead : IsLead scheme lead)
    (alnum : isAlnum curChar = true) :
    Trail (lead ++ [curChar]) ⟨.usernameOrHostname, lead.length, placeScheme scheme⟩ :=
  Or.inl (.usernameOrHostname isLead (token_singleton alnum))

/-- A secret that ends at the sign has a host behind it. -/
theorem enters_host {scheme lead name secret : List Byte} {prevIt : Int}
    (isLead : IsLead scheme lead) (isName : IsName name) (isSecret : IsSecret secret)
    (sign : curChar = chr '@') :
    Trail (lead ++ name ++ [chr ':'] ++ secret ++ [curChar]) ⟨.hostnameStart, prevIt,
      { placeScheme scheme with
        username := span lead name
        password := span (lead ++ name ++ [chr ':']) secret }⟩ := by
  subst sign
  have isUser : IsUser (name, some secret) := by
    refine ⟨isName, fun other member => ?_⟩
    cases member
    exact isSecret
  have trail : FrontTrail (beforeHost lead (name, some secret)) ⟨.hostnameStart, prevIt,
    placeUser scheme lead (name, some secret)⟩ := .hostnameStart isLead isUser
  have read : lead ++ name ++ [chr ':'] ++ secret ++ [chr '@'] =
      beforeHost lead (name, some secret) := by
    simp [beforeHost, userBytes]
  rw [read]
  exact Or.inl trail

/-- What might be a port ends as one at a slash, and as a password at the sign. -/
theorem turn_portOrPassword {scheme lead name secret : List Byte} {state : State}
    (either : state = .portOrPassword ∨ state = .password) (isLead : IsLead scheme lead)
    (isName : IsName name) (isSecret : IsSecret secret) :
    (turn after (lead ++ name ++ [chr ':'] ++ secret) curChar ahead ⟨state,
      (lead ++ name ++ [chr ':']).length,
      { placeScheme scheme with username := span lead name }⟩).Leads
      (fun skip next => skip = 0 ∧ Trail (lead ++ name ++ [chr ':'] ++ secret ++ [curChar]) next)
      (fun outcome => outcome.verdict = .error) := by
  have longer {next : State} (stays : next = .portOrPassword ∨ next = .password)
      (continues : isAlnum curChar = true ∨ curChar = chr '%') :
      Trail (lead ++ name ++ [chr ':'] ++ secret ++ [curChar]) ⟨next,
        (lead ++ name ++ [chr ':']).length,
        { placeScheme scheme with username := span lead name }⟩ := by
    rw [List.append_assoc _ secret]
    exact Or.inl (.portOrPassword stays isLead isName (isSecret.snoc continues))
  rcases either with rfl | rfl
  · simp only [turn]
    split
    · rename_i digit
      exact ⟨rfl, longer (.inl rfl) (.inl (by rw [isAlnum, digit, Bool.or_true]))⟩
    · split
      · rename_i slash
        unfold finishPort
        simp only
        split
        · refine ⟨rfl, enters_path none (some secret) isLead isName.ne_nil
            (by simp [userBytes, portBytes]) slash ?_⟩
          rw [userBytes, List.append_nil]
          exact ⟨_, rfl⟩
        · rfl
      · split
        · rename_i continues
          exact ⟨rfl, longer (.inr rfl) (by simpa using continues)⟩
        · split
          · rename_i sign
            exact ⟨rfl, enters_host isLead isName isSecret sign⟩
          · rfl
  · simp only [turn]
    split
    · rename_i continues
      exact ⟨rfl, longer (.inr rfl) (by simpa using continues)⟩
    · split
      · rename_i sign
        exact ⟨rfl, enters_host isLead isName isSecret sign⟩
      · rfl

/-- A turn before the path keeps the trail, or is an error. -/
theorem turn_frontTrail (trail : FrontTrail before l) :
    (turn after before curChar ahead l).Leads
      (fun skip next => skip = 0 ∧ Trail (before ++ [curChar]) next)
      (fun outcome => outcome.verdict = .error) := by
  cases trail with
  | schemeStart isScheme =>
    simp only [turn]
    split
    · rename_i part
      refine ⟨rfl, Or.inl (.schemeStart ?_)⟩
      intro byte member
      rcases List.mem_append.mp member with old | new
      · exact isScheme byte old
      · rw [List.mem_singleton.mp new]
        simpa [or_assoc] using part
    · split
      · rename_i colon
        subst colon
        exact ⟨rfl, Or.inl (.schemeEnd isScheme)⟩
      · rfl
  | @schemeEnd scheme isScheme =>
    simp only [turn]
    split
    · rename_i slash
      subst slash
      rw [List.append_assoc]
      exact ⟨rfl, Or.inl (.schemeEndSlash isScheme)⟩
    · split
      · rename_i alnum
        exact ⟨rfl, enters_name (isLead_of_isScheme isScheme (.inl rfl)) alnum⟩
      · rfl
  | schemeEndSlash isScheme =>
    simp only [turn]
    split
    · rename_i slash
      subst slash
      rw [List.append_assoc]
      exact ⟨rfl, Or.inl (.schemeEndSlashSlash isScheme)⟩
    · split
      · rename_i alnum
        exact ⟨rfl, enters_name (isLead_of_isScheme isScheme (.inr (.inl rfl))) alnum⟩
      · rfl
  | schemeEndSlashSlash isScheme =>
    simp only [turn]
    split
    · rename_i alnum
      exact ⟨rfl, enters_name (isLead_of_isScheme isScheme (.inr (.inr rfl))) alnum⟩
    · rfl
  | @usernameOrHostname scheme lead name isLead isName =>
    simp only [turn]
    split
    · rename_i plain
      rw [List.append_assoc]
      exact ⟨rfl, Or.inl (.usernameOrHostname isLead (isName.snoc (nameByte_of_plain plain)))⟩
    · split
      · rename_i colon
        subst colon
        exact ⟨rfl, Or.inl (.portOrPasswordStart isLead isName)⟩
      · split
        · rename_i sign
          subst sign
          have trail : FrontTrail (beforeHost lead (name, none)) ⟨.hostnameStart, lead.length,
            placeUser scheme lead (name, none)⟩ :=
            .hostnameStart isLead ⟨isName, fun secret member => by cases member⟩
          refine ⟨rfl, Or.inl ?_⟩
          rw [List.append_assoc]
          exact trail
        · split
          · rename_i slash
            refine ⟨rfl, enters_path none none isLead isName.ne_nil
              (by simp [userBytes, portBytes]) slash ?_⟩
            rw [userBytes, List.append_nil]
            exact ⟨80, rfl⟩
          · rfl
  | @portOrPasswordStart scheme lead name isLead isName =>
    simp only [turn]
    split
    · rename_i unreserved
      exact ⟨rfl, Or.inl (.portOrPassword (.inl rfl) isLead isName (token_singleton unreserved))⟩
    · rfl
  | portOrPassword either isLead isName isSecret =>
    exact turn_portOrPassword either isLead isName isSecret
  | hostnameStart isLead isUser =>
    simp only [turn]
    split
    · rename_i plain
      exact ⟨rfl, Or.inl (.hostname isLead isUser (token_singleton (nameByte_of_plain plain)))⟩
    · rfl
  | @hostname scheme lead host user isLead isUser isHost =>
    simp only [turn]
    split
    · rename_i plain
      rw [List.append_assoc]
      exact ⟨rfl, Or.inl (.hostname isLead isUser (isHost.snoc (nameByte_of_plain plain)))⟩
    · split
      · rename_i colon
        subst colon
        exact ⟨rfl, Or.inl (.portStart isLead isUser isHost)⟩
      · split
        · rename_i slash
          exact ⟨rfl, enters_path (some user) none isLead isHost.ne_nil
            (by simp [beforeHost, portBytes]) slash ⟨80, rfl⟩⟩
        · rfl
  | @portStart scheme lead host user isLead isUser isHost =>
    simp only [turn]
    split
    · rename_i digit
      exact ⟨rfl, Or.inl (.port isLead isUser isHost (token_singleton digit))⟩
    · rfl
  | @port scheme lead host digits user isLead isUser isHost isPort =>
    simp only [turn]
    split
    · rename_i digit
      rw [List.append_assoc]
      exact ⟨rfl, Or.inl (.port isLead isUser isHost (isPort.snoc digit))⟩
    · split
      · rename_i slash
        unfold finishPort
        simp only
        split
        · exact ⟨rfl, enters_path (some user) (some digits) isLead isHost.ne_nil
            (by simp [beforeHost, portBytes]) slash ⟨_, rfl⟩⟩
        · rfl
      · rfl

/-- A turn from the path on keeps the trail, or leaves with a covered buffer or an error. -/
theorem turn_restTrail (trail : RestTrail before l) :
    (turn after before curChar ahead l).Leads
      (fun skip next => skip = 0 ∧ Trail (before ++ [curChar]) next)
      (fun outcome => outcome.verdict = .completed →
        Covered (before ++ curChar :: ahead) outcome.uri) := by
  cases trail with
  | @path parts port reading =>
    simp only [turn]
    split
    · rename_i hash
      subst hash
      exact ⟨rfl, Or.inr (.pathHash reading)⟩
    · rename_i notHash
      split
      · rename_i question
        subst question
        exact ⟨rfl, Or.inr (.queryStart reading)⟩
      · rename_i notQuestion
        have longer : ({ parts with path := parts.path ++ [curChar] } : UriParts).Reading :=
          ⟨reading.scheme, reading.slashes, reading.host, reading.path.snoc ⟨notQuestion, notHash⟩⟩
        refine ⟨rfl, Or.inr ?_⟩
        rw [UriParts.afterPath, List.append_assoc]
        exact .path longer
  | @pathHash parts port reading =>
    let whole : UriParts := { parts with query := [], fragment := curChar :: ahead }
    have noQuery : whole.afterQuery = parts.afterPath := List.append_nil _
    have split : parts.afterPath ++ [chr '#'] ++ curChar :: ahead = whole.bytes := by
      rw [UriParts.bytes, noQuery, List.append_assoc]
      rfl
    refine fun completed => covered_of_completed whole
      ⟨reading.scheme, reading.slashes, reading.host, reading.path⟩ (.inl rfl) split ⟨port, ?_⟩
      completed
    rw [UriParts.placed, noQuery]
    rfl
  | @queryStart parts port reading =>
    exact ⟨rfl, Or.inr (.query reading (token_singleton trivial))⟩
  | @query parts query port reading isQuery =>
    simp only [turn]
    split
    · rename_i hash
      subst hash
      exact ⟨rfl, Or.inr (.queryHash reading isQuery)⟩
    · rename_i notHash
      rw [List.append_assoc]
      exact ⟨rfl, Or.inr (.query reading (isQuery.snoc notHash))⟩
  | @queryHash parts query port reading isQuery =>
    let whole : UriParts := { parts with query := query, fragment := curChar :: ahead }
    have withQuery : whole.afterQuery = parts.afterPath ++ [chr '?'] ++ query :=
      UriParts.afterQuery_of_ne_nil parts isQuery.ne_nil
    have split : parts.afterPath ++ [chr '?'] ++ query ++ [chr '#'] ++ curChar :: ahead =
        whole.bytes := by
      rw [UriParts.bytes, withQuery, List.append_assoc]
      rfl
    refine fun completed => covered_of_completed whole
      ⟨reading.scheme, reading.slashes, reading.host, reading.path⟩ (.inr isQuery) split ⟨port, ?_⟩
      completed
    rw [UriParts.placed, withQuery, optionalSpan_of_ne_nil _ isQuery.ne_nil]
    rfl

/-- A turn keeps the trail, or leaves with a covered buffer or an error. -/
theorem turn_trail (trail : Trail before l) :
    (turn after before curChar ahead l).Leads
      (fun skip next => skip = 0 ∧ Trail (before ++ [curChar]) next)
      (fun outcome => outcome.verdict = .completed →
        Covered (before ++ curChar :: ahead) outcome.uri) := by
  rcases trail with trail | trail
  · refine (turn_frontTrail trail).mono (fun _ _ stays => stays) fun outcome error done => ?_
    exact absurd (error.symm.trans done) UriParseResult.noConfusion
  · exact turn_restTrail trail

end Turns

/-! ### Ends of the buffer -/

theorem size_span (before part : List Byte) : (span before part).size = part.length := by
  simp [span, StringView.size]

/-- A buffer that ends before the path has the form of one. -/
theorem unfinished_of_frontTrail {buf : List Byte} {l : Locals} (trail : FrontTrail buf l) :
    Unfinished buf := by
  cases trail with
  | schemeStart isScheme => exact .scheme isScheme
  | schemeEnd isScheme =>
    have unfinished := Unfinished.authority (isLead_of_isScheme isScheme (.inl rfl)) .nothing
    rwa [List.append_nil] at unfinished
  | schemeEndSlash isScheme =>
    have unfinished := Unfinished.authority (isLead_of_isScheme isScheme (.inr (.inl rfl))) .nothing
    rwa [List.append_nil] at unfinished
  | schemeEndSlashSlash isScheme =>
    have unfinished := Unfinished.authority (isLead_of_isScheme isScheme (.inr (.inr rfl))) .nothing
    rwa [List.append_nil] at unfinished
  | usernameOrHostname isLead isName => exact .authority isLead (.name isName)
  | portOrPasswordStart isLead isName =>
    rw [List.append_assoc]
    exact .authority isLead (.colon isName)
  | portOrPassword either isLead isName isSecret =>
    rw [List.append_assoc, List.append_assoc]
    exact .authority isLead (.secret isName isSecret)
  | hostnameStart isLead isUser => exact .authority isLead (.user isUser)
  | hostname isLead isUser isHost =>
    rw [beforeHost, List.append_assoc]
    exact .authority isLead (.host isUser isHost)
  | portStart isLead isUser isHost =>
    rw [beforeHost, List.append_assoc, List.append_assoc, ← List.append_assoc (userBytes _)]
    exact .authority isLead (.port isUser isHost fun byte member => absurd member List.not_mem_nil)
  | port isLead isUser isHost isPort =>
    rw [beforeHost, List.append_assoc, List.append_assoc, List.append_assoc,
      ← List.append_assoc (userBytes _)]
    exact .authority isLead (.port isUser isHost isPort.forall_mem)

/-- Where a path has been stored and no query string, the rest is taken for one. -/
theorem finish_query {buf : List Byte} {l : Locals} (path : l.uri.path.size ≠ 0)
    (none : l.uri.querystr = .empty) :
    finish buf l = parseQueries buf { l.uri with querystr := .range l.prevIt buf.length } := by
  have empty : l.uri.querystr.size = 0 := by
    rw [none]
    rfl
  unfold finish
  simp only
  rw [if_neg path, if_pos empty]

/-- The path is not empty when the parser looks what is. -/
theorem placedPath_size_ne_zero {parts : UriParts} (reading : parts.Reading) :
    parts.placedPath.path.size ≠ 0 := by
  rw [UriParts.placedPath, size_span]
  have := List.length_pos_iff.mpr reading.path.ne_nil
  omega

/-- A path that is taken for a query string is none. -/
theorem parseQueries_path {parts : UriParts} (reading : parts.Reading) {mark : List Byte}
    {uri : Uri} (place : uri.querystr = span parts.front (parts.path ++ mark)) :
    (parseQueries (parts.afterPath ++ mark) uri).verdict ≠ .completed := by
  intro completed
  have path := reading.path
  have split : parts.afterPath ++ mark = parts.front ++ (parts.path ++ mark) ++ [] := by
    rw [UriParts.afterPath, List.append_assoc, List.append_nil]
  rw [parseQueries_range split place] at completed
  cases same : parts.path with
  | nil =>
    rw [same] at path
    exact path
  | cons first others =>
    rw [same] at path completed
    have starts := nameByte_of_parseQueryText completed
    rw [path.1] at starts
    exact absurd starts (by decide)

/-- Behind the slash of a path the components cover the buffer at its end, if it is completed. -/
theorem covered_of_restTrail {buf : List Byte} {l : Locals} (trail : RestTrail buf l)
    (completed : (finish buf l).verdict = .completed) : Covered buf (finish buf l).uri := by
  cases trail with
  | @path parts port reading =>
    let whole : UriParts := { parts with query := [], fragment := [] }
    have noQuery : whole.afterQuery = parts.afterPath := List.append_nil _
    have split : parts.afterPath = whole.bytes := by
      rw [UriParts.bytes, noQuery]
      exact (List.append_nil _).symm
    have covered := covered_of_completed whole
      ⟨reading.scheme, reading.slashes, reading.host, reading.path⟩ (.inl rfl) split ⟨port, rfl⟩
    rw [parseQueries_empty rfl] at covered
    exact covered rfl
  | @pathHash parts port reading =>
    rw [finish_query (placedPath_size_ne_zero reading) rfl] at completed
    refine absurd completed (parseQueries_path reading ?_)
    rw [UriParts.afterPath, List.append_assoc]
    rfl
  | @queryStart parts port reading =>
    rw [finish_query (placedPath_size_ne_zero reading) rfl] at completed
    refine absurd completed (parseQueries_path reading ?_)
    rw [UriParts.afterPath, List.append_assoc]
    rfl
  | @query parts query port reading isQuery =>
    let whole : UriParts := { parts with query := query, fragment := [] }
    have withQuery : whole.afterQuery = parts.afterPath ++ [chr '?'] ++ query :=
      UriParts.afterQuery_of_ne_nil parts isQuery.ne_nil
    have split : parts.afterPath ++ [chr '?'] ++ query = whole.bytes := by
      rw [UriParts.bytes, withQuery]
      exact (List.append_nil _).symm
    rw [finish_query (placedPath_size_ne_zero reading) rfl] at completed ⊢
    refine covered_of_completed whole ⟨reading.scheme, reading.slashes, reading.host, reading.path⟩
      (.inr isQuery) split ⟨port, ?_⟩ completed
    rw [UriParts.placed, optionalSpan_of_ne_nil _ isQuery.ne_nil]
    rfl
  | @queryHash parts query port reading isQuery =>
    refine absurd completed ?_
    unfold finish
    simp only
    have some : (span (parts.afterPath ++ [chr '?']) query).size ≠ 0 := by
      rw [size_span]
      have := List.length_pos_iff.mpr isQuery.ne_nil
      omega
    rw [if_neg (placedPath_size_ne_zero reading), if_neg some]
    exact UriParseResult.noConfusion

/-! ### Buffers that end too early -/

/-- No path has been stored, and the last component is no path. -/
structure Abandoned (buf : List Byte) (l : Locals) : Prop where
  path : l.uri.path = .empty
  last : l.uri.hostname = .empty ∨ ∃ before first others, buf = before ++ first :: others ∧
    l.prevIt = before.length ∧ first ≠ chr '/'

/-- Nothing but a scheme and a user has been stored. -/
def OnlyUser (uri : Uri) : Prop :=
  ∃ scheme username password, uri = { Uri.fresh with scheme, username, password }

theorem abandoned_of_onlyUser {buf : List Byte} {l : Locals} (only : OnlyUser l.uri) :
    Abandoned buf l := by
  obtain ⟨scheme, username, password, stored⟩ := only
  constructor
  · rw [stored]
    rfl
  · left
    rw [stored]
    rfl

/-- A path that is empty does not stand for a component that starts without a slash. -/
theorem not_covered_of_abandoned {buf : List Byte} {l : Locals} (abandoned : Abandoned buf l) :
    (finish buf l).verdict = .completed ∧ ¬ Covered buf (finish buf l).uri := by
  have empty : l.uri.path.size = 0 := by
    rw [abandoned.path]
    rfl
  unfold finish
  simp only
  rw [if_pos empty]
  refine ⟨rfl, ?_⟩
  rintro ⟨parts, good, split, port, queries, place⟩
  have path := congrArg Uri.path place
  have hostname := congrArg Uri.hostname place
  simp only at path hostname
  rcases abandoned.last with noHost | ⟨before, first, others, read, prevIt, notSlash⟩
  · rw [noHost] at hostname
    exact StringView.noConfusion hostname
  · rw [prevIt] at path
    injection path with starts ends
    have cut : before ++ first :: others = parts.front ++ (parts.path ++
        (optionalBytes (chr '?') parts.query ++ optionalBytes (chr '#') parts.fragment)) := by
      rw [← read, split, UriParts.bytes, UriParts.afterQuery, UriParts.afterPath]
      simp
    obtain ⟨sameFront, sameRest⟩ := List.append_inj cut (by omega)
    have long : 0 < parts.path.length := by
      have := congrArg List.length read
      simp only [List.length_append, List.length_cons] at this ends
      omega
    cases samePath : parts.path with
    | nil => rw [samePath] at long; exact absurd long (Nat.lt_irrefl 0)
    | cons slash more =>
      rw [samePath] at sameRest
      obtain ⟨rfl, _⟩ := List.cons.inj sameRest
      exact notSlash (good.path first (by rw [samePath]; rfl))

section Early

variable {after before : List Byte}

theorem runs_lead {scheme lead : List Byte} (isLead : IsLead scheme lead) :
    Runs (turn after) [] lead ⟨.schemeStart, 0, Uri.fresh⟩ fun _ l =>
      l.state.AtName ∧ l.uri = placeScheme scheme := by
  obtain ⟨isScheme, slashes, few, rfl⟩ := isLead
  refine (runs_schemeBytes isScheme).append ?_
  rintro l rfl
  refine runs_cons fun ahead => ?_
  rw [List.nil_append]
  rcases few with rfl | rfl | rfl
  · exact ⟨.inl rfl, rfl⟩
  · exact runs_cons fun ahead' => ⟨.inr (.inl rfl), rfl⟩
  · exact runs_cons fun ahead' => runs_cons fun ahead'' => ⟨.inr (.inr rfl), rfl⟩

/-- A name, and what may follow it. -/
theorem runs_name {name input : List Byte} {l : Locals} {post : List Byte → Locals → Prop}
    (isName : IsName name) (state : l.state.AtName)
    (later : Runs (turn after) (before ++ name) input
      { l with state := .usernameOrHostname, prevIt := before.length } post) :
    Runs (turn after) before (name ++ input) l post := by
  refine isName.runs_append _ (fun symbol ahead starts => turn_atName state starts) ?_ later
  intro symbol before' ahead continues
  simp only [turn, plain_eq_true continues, if_true, onward_go]

/-- A host behind a user, and what may follow it. -/
theorem runs_openHost {host input : List Byte} {l : Locals} {post : List Byte → Locals → Prop}
    (isHost : IsHost host) (state : l.state = .hostnameStart)
    (later : Runs (turn after) (before ++ host) input
      { l with state := .hostname, prevIt := before.length } post) :
    Runs (turn after) before (host ++ input) l post := by
  refine isHost.runs_append _ ?_ ?_ later
  · intro symbol ahead starts
    simp only [turn, state, plain_eq_true starts, if_true, onward_go]
  · intro symbol before' ahead continues
    simp only [turn, plain_eq_true continues, if_true, onward_go]

theorem ne_slash_of_nameByte {byte : Byte} (plain : NameByte byte) : byte ≠ chr '/' := by
  rintro rfl
  exact absurd plain (by decide)

/-- Behind the slashes the parser goes on until the path begins. -/
theorem runs_openAuthority {scheme rest : List Byte} {l : Locals} (isOpen : OpenAuthority rest)
    (state : l.state.AtName) (place : l.uri = placeScheme scheme) :
    Runs (turn after) before rest l Abandoned := by
  have fresh : l.uri.password = .empty := by
    rw [place]
    rfl
  have unchanged : OnlyUser l.uri := ⟨_, .empty, .empty, place⟩
  have withUser {user : List Byte × Option (List Byte)} {read : List Byte} {l' : Locals}
      (userRead : UserRead user read l.uri l') : OnlyUser l'.uri := by
    obtain ⟨username, password, same⟩ := userRead.same
    exact ⟨_, username, password, by rw [same, place]; rfl⟩
  cases isOpen with
  | nothing => exact runs_nil (abandoned_of_onlyUser unchanged)
  | name isName =>
    rw [← List.append_nil rest]
    exact runs_name isName state (runs_nil (abandoned_of_onlyUser unchanged))
  | @colon name isName =>
    refine runs_name isName state (runs_cons fun ahead => ?_)
    simp only [turn, plain_mark (.inl rfl), Bool.false_eq_true, if_false, if_true, onward_go]
    exact runs_nil (abandoned_of_onlyUser ⟨_, _, .empty, by rw [place]; rfl⟩)
  | @secret name secret isName isSecret =>
    refine runs_name isName state (runs_cons fun ahead => ?_)
    simp only [turn, plain_mark (.inl rfl), Bool.false_eq_true, if_false, if_true, onward_go]
    cases secret with
    | nil => exact absurd isSecret id
    | cons first others =>
      refine runs_cons fun ahead' => ?_
      have unreserved : isUnreserved first = true := isSecret.1
      simp only [turn, unreserved, if_true, onward_go]
      refine (runs_password isSecret.2 (Or.inl rfl)).mono ?_
      rintro l' ⟨_, _, same⟩
      exact abandoned_of_onlyUser ⟨_, _, .empty, by rw [same, place]; rfl⟩
  | user isUser =>
    exact (runs_user isUser state fresh).mono fun l' read => abandoned_of_onlyUser (withUser read)
  | @host user host isUser isHost =>
    refine (runs_user isUser state fresh).append fun l' read => ?_
    rw [← List.append_nil host]
    have only : OnlyUser l'.uri := withUser read
    exact runs_openHost isHost read.state (runs_nil (abandoned_of_onlyUser only))
  | @port user host digits isUser isHost allDigits =>
    rw [List.append_assoc]
    refine (runs_user isUser state fresh).append fun l' read => ?_
    obtain ⟨scheme', username, password, stored⟩ := withUser read
    refine runs_openHost isHost read.state (runs_cons fun ahead => ?_)
    simp only [turn, plain_mark (.inl rfl), Bool.false_eq_true, if_false, if_true, onward_go]
    have noPath : l'.uri.path = .empty := by
      rw [stored]
      rfl
    cases digits with
    | nil =>
      refine runs_nil ⟨noPath, Or.inr ?_⟩
      cases host with
      | nil => exact absurd isHost id
      | cons first others =>
        exact ⟨_, first, others ++ [chr ':'], by simp, rfl, ne_slash_of_nameByte isHost.1⟩
    | cons digit more =>
      obtain ⟨isDigit, areDigits⟩ := List.forall_mem_cons.mp allDigits
      refine runs_cons fun ahead' => ?_
      simp only [turn, isDigit, if_true, onward_go]
      refine runs_loop ?_ ⟨noPath, Or.inr ⟨_, digit, more, ?_, rfl, ?_⟩⟩
      · intro byte member before' ahead''
        simp only [turn, areDigits byte member, if_true, onward_go]
      · simp
      · rintro rfl
        exact absurd isDigit (by decide)

/-- A buffer that ends before the path is read to its end. -/
theorem runs_unfinished (after : List Byte) {buf : List Byte} (unfinished : Unfinished buf) :
    Runs (turn after) [] buf ⟨.schemeStart, 0, Uri.fresh⟩ Abandoned := by
  cases unfinished with
  | scheme isScheme =>
    refine (runs_schemeBytes isScheme).mono ?_
    rintro l rfl
    exact abandoned_of_onlyUser ⟨.empty, .empty, .empty, rfl⟩
  | authority isLead isOpen =>
    refine (runs_lead isLead).append ?_
    rintro l ⟨state, place⟩
    exact runs_openAuthority isOpen state place

end Early

/-- Wherever the parser stands in a buffer, there is a trail. -/
theorem feed_trail (after buf ahead : List Byte) :
    (feed (turn after) [] buf ahead 0 ⟨.schemeStart, 0, Uri.fresh⟩).Leads
      (fun skip l => skip = 0 ∧ Trail buf l)
      (fun outcome => outcome.verdict = .completed → Covered (buf ++ ahead) outcome.uri) := by
  refine feed_invariant_of_no_jump Trail
    (Or.inl (.schemeStart fun byte member => absurd member List.not_mem_nil))
    fun before symbol ahead' l split trail => ?_
  rw [List.nil_append] at split
  rw [← split]
  exact turn_trail trail

/-- The components cover a completed buffer unless it ends before the slash of a path. -/
theorem covered_of_not_unfinished (after : List Byte) {buf : List Byte}
    (finished : ¬ Unfinished buf) (completed : (parse after Uri.fresh buf).verdict = .completed) :
    Covered buf (parse after Uri.fresh buf).uri := by
  have leads := feed_trail after buf []
  rw [List.append_nil] at leads
  unfold parse run at completed ⊢
  generalize feed (turn after) [] buf [] 0 _ = ended at leads completed ⊢
  cases ended with
  | left outcome => exact leads completed
  | inside skip l =>
    obtain ⟨rfl, trail⟩ := leads
    rcases trail with trail | trail
    · exact absurd (unfinished_of_frontTrail trail) finished
    · exact covered_of_restTrail trail completed

/-- A buffer that ends before it is completed, and they do not. -/
theorem not_covered_of_unfinished (after : List Byte) {buf : List Byte}
    (unfinished : Unfinished buf) : (parse after Uri.fresh buf).verdict = .completed ∧
      ¬ Covered buf (parse after Uri.fresh buf).uri := by
  obtain ⟨l, inside, abandoned⟩ := (runs_unfinished after unfinished).feed []
  have ended : parse after Uri.fresh buf = finish buf l := by
    rw [parse, run, inside]
  rw [ended]
  exact not_covered_of_abandoned abandoned

end UriParser

end Sheep
