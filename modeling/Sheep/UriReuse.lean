/-
This file describes what a uri object brings into a parse. Nothing is reset, so a
component that the buffer does not have is left as it was, and queries are added
to those that are there. The verdict depends on the object only through a path
that is there already and through an old query string.
-/

import Sheep.UriEnds

namespace Sheep

open ScanLoop

namespace UriParser

/-! ### Queries -/

/-- The query loop does the same to every uri. -/
def AddsQueries (uri : Uri) (l l' : QueryLocals) : Prop :=
  l = { l' with uri := { uri with queries := uri.queries ++ l'.uri.queries } }

/-- The queries of an outcome have been added to those of the uri. -/
def AddsTo (uri : Uri) (outcome outcome' : Outcome) : Prop :=
  outcome = ⟨outcome'.verdict, { uri with queries := uri.queries ++ outcome'.uri.queries }⟩

theorem queryTurn_adds {offset : Int} {before ahead : List Byte} {curChar : Byte} {uri : Uri}
    {l l' : QueryLocals} (adds : AddsQueries uri l l') :
    (queryTurn offset before curChar ahead l).Agree (fun _ => AddsQueries uri) (AddsTo uri)
      (queryTurn offset before curChar ahead l') := by
  obtain ⟨state, prevIt, queryName, uri'⟩ := l'
  subst adds
  cases state <;> simp only [queryTurn]
  case queryValue =>
    split
    · exact rfl
    · split
      · simp only [agree_go, AddsQueries, List.append_assoc]
      · exact rfl
  case queryName | queryValueStart | newQueryStart =>
    repeat' split
    all_goals exact rfl
  all_goals exact rfl

theorem queryEnd_adds {last : Int} {uri : Uri} {l l' : QueryLocals} (adds : AddsQueries uri l l') :
    AddsTo uri (queryEnd last l) (queryEnd last l') := by
  obtain ⟨state, prevIt, queryName, uri'⟩ := l'
  subst adds
  unfold queryEnd
  simp only
  split
  · simp only [AddsTo, List.append_assoc]
  · rfl

/-- A query string adds the same queries to every uri. -/
theorem parseQueryText_adds (offset : Int) (text : List Byte) (uri : Uri) :
    AddsTo uri (parseQueryText offset text uri) (parseQueryText offset text Uri.fresh) := by
  have none : uri = { uri with queries := uri.queries ++ Uri.fresh.queries } := by
    rw [show Uri.fresh.queries = [] from rfl, List.append_nil]
  unfold parseQueryText
  cases text with
  | nil => exact congrArg (Outcome.mk .completed) none
  | cons first others =>
    simp only
    split
    · exact congrArg (Outcome.mk .error) none
    · have starts : AddsQueries uri ⟨.queryName, offset, .empty, uri⟩
          ⟨.queryName, offset, .empty, Uri.fresh⟩ := congrArg (QueryLocals.mk _ _ _) none
      refine run_agree (fun _ _ => AddsQueries uri) starts ?_
        (fun _ _ _ _ _ adds => adds) (fun _ _ => queryEnd_adds) fun _ _ _ => queryEnd_adds
      exact fun _ _ _ _ _ _ adds => queryTurn_adds adds

/-- Nothing but the query string matters to `parse_queries`. -/
theorem parseQueries_adds (buf : List Byte) (querystr : StringView) :
    ∃ verdict added, ∀ uri : Uri, uri.querystr = querystr →
      parseQueries buf uri = ⟨verdict, { uri with queries := uri.queries ++ added }⟩ := by
  cases querystr with
  | range first last =>
    let outcome := parseQueryText first (((StringView.range first last).text buf).getD []) Uri.fresh
    refine ⟨outcome.verdict, outcome.uri.queries, ?_⟩
    rintro ⟨scheme, username, password, hostname, portstr, port, path, querystr, queries, rest⟩ same
    cases same
    exact parseQueryText_adds _ _ _
  | elsewhere text =>
    let outcome := parseQueryText 0 text Uri.fresh
    refine ⟨outcome.verdict, outcome.uri.queries.map (.within text), ?_⟩
    rintro ⟨scheme, username, password, hostname, portstr, port, path, querystr, queries, rest⟩ same
    cases same
    simp only [parseQueries]
    rw [parseQueryText_adds]
    rfl

/-- A query string without bytes adds no query. -/
theorem parseQueries_size_zero (buf : List Byte) {uri : Uri} (none : uri.querystr.size = 0) :
    parseQueries buf uri = ⟨.completed, uri⟩ := by
  cases same : uri.querystr with
  | range first last =>
    rw [same] at none
    obtain rfl : last = first := by
      simp only [StringView.size] at none
      omega
    unfold parseQueries
    rw [same]
    simp only [StringView.text]
    split <;> simp [parseQueryText]
  | elsewhere text =>
    rw [same] at none
    obtain rfl : text = [] := by simpa [StringView.size] using none
    exact parseQueries_empty same

/-! ### Two runs -/

/-- What one parse does to a component of two uris: it stores the same, or nothing. -/
def SameOrLeft (old old' new new' : StringView) : Prop := new = new' ∨ (new = old ∧ new' = old')

/-- A user name may also be the host name that was there before. -/
def SameLeftOrHost (old old' : Uri) (new new' : StringView) : Prop :=
  SameOrLeft old.username old'.username new new' ∨ (new = old.hostname ∧ new' = old'.hostname)

/-- Two uris hold the same components, besides what they held before. -/
structure SameUri (old old' uri uri' : Uri) : Prop where
  scheme : SameOrLeft old.scheme old'.scheme uri.scheme uri'.scheme
  username : SameLeftOrHost old old' uri.username uri'.username
  password : SameOrLeft old.password old'.password uri.password uri'.password
  hostname : SameOrLeft old.hostname old'.hostname uri.hostname uri'.hostname
  portstr : SameOrLeft old.portstr old'.portstr uri.portstr uri'.portstr
  port : uri.port = uri'.port ∨ (uri.port = old.port ∧ uri'.port = old'.port)
  path : SameOrLeft old.path old'.path uri.path uri'.path
  querystr : SameOrLeft old.querystr old'.querystr uri.querystr uri'.querystr
  fragment : SameOrLeft old.fragment old'.fragment uri.fragment uri'.fragment
  queries : ∃ added, uri.queries = old.queries ++ added ∧ uri'.queries = old'.queries ++ added

/-- The verdicts are the same, and so are the components. -/
def SameOutcome (old old' : Uri) (outcome outcome' : Outcome) : Prop :=
  outcome.verdict = outcome'.verdict ∧ SameUri old old' outcome.uri outcome'.uri

/-- The states up to the one that may exchange a user and a host. -/
def State.beforeHost : State → Bool
  | .schemeStart | .schemeEnd | .schemeEndSlash | .schemeEndSlashSlash | .usernameOrHostname
  | .portOrPasswordStart | .portOrPassword => true
  | _ => false

/-- A user has been stored that may be a host. -/
def State.afterUser : State → Bool
  | .portOrPasswordStart | .portOrPassword => true
  | _ => false

/-- Two uris in the middle of the same parse. -/
structure Kept (old old' : Uri) (state : State) (uri uri' : Uri) : Prop
    extends SameUri old old' uri uri' where
  before : state.beforeHost = true → uri.hostname = old.hostname ∧ uri'.hostname = old'.hostname
  user : state.afterUser = true → uri.username = uri'.username
  noQueries : uri.queries = old.queries ∧ uri'.queries = old'.queries

/-- The loops stand at the same place, with their uris in the middle of the same parse. -/
def Alike (old old' : Uri) (l l' : Locals) : Prop :=
  ∃ uri', l' = { l with uri := uri' } ∧ Kept old old' l.state l.uri uri'

/-- Two objects between which a parse does not distinguish. -/
structure Comparable (old old' : Uri) : Prop where
  path : old.path.size = 0 ↔ old'.path.size = 0
  querystr : old.querystr = old'.querystr ∨ (old.querystr.size = 0 ∧ old'.querystr.size = 0)

section Alike

variable {old old' uri uri' : Uri} {after before ahead : List Byte} {curChar : Byte}
  {state state' : State} {prevIt prevIt' : Int} {l l' : Locals}

/-- A turn that stores nothing. -/
theorem Kept.move (kept : Kept old old' state uri uri')
    (flows : (state'.beforeHost = true → state.beforeHost = true) ∧
      (state'.afterUser = true → state.afterUser = true)) :
    Alike old old' ⟨state', prevIt', uri⟩ ⟨state', prevIt', uri'⟩ :=
  ⟨uri', rfl, { kept with
    before := fun early => kept.before (flows.1 early)
    user := fun inside => kept.user (flows.2 inside) }⟩

theorem Kept.sameOutcome (kept : Kept old old' state uri uri') (verdict : UriParseResult) :
    SameOutcome old old' ⟨verdict, uri⟩ ⟨verdict, uri'⟩ := ⟨rfl, kept.toSameUri⟩

/-- The query strings are parsed alike. -/
theorem parseQueries_alike (buf : List Byte) (same : SameUri old old' uri uri')
    (noQueries : uri.queries = old.queries ∧ uri'.queries = old'.queries)
    (querystr : uri.querystr = uri'.querystr ∨
      (uri.querystr.size = 0 ∧ uri'.querystr.size = 0)) :
    SameOutcome old old' (parseQueries buf uri) (parseQueries buf uri') := by
  rcases querystr with equal | ⟨none, none'⟩
  · obtain ⟨verdict, added, adds⟩ := parseQueries_adds buf uri.querystr
    rw [adds uri rfl, adds uri' equal.symm]
    refine ⟨rfl, { same with queries := ⟨added, ?_, ?_⟩ }⟩
    · rw [noQueries.1]
    · rw [noQueries.2]
  · rw [parseQueries_size_zero buf none, parseQueries_size_zero buf none']
    exact ⟨rfl, same⟩

/-- A query string that is the same or left is parsed alike. -/
theorem Kept.querystr_cases (kept : Kept old old' state uri uri')
    (comparable : Comparable old old') :
    uri.querystr = uri'.querystr ∨ (uri.querystr.size = 0 ∧ uri'.querystr.size = 0) := by
  rcases kept.querystr with same | ⟨left, left'⟩
  · exact Or.inl same
  · rw [left, left']
    exact comparable.querystr

/-- The end of a port stores the same in both. -/
theorem finishPort_alike (memory : List Byte) (it : Int) (kept : Kept old old' state uri uri') :
    (finishPort memory before it ⟨state', prevIt, uri⟩).Agree (fun _ => Alike old old')
      (SameOutcome old old') (finishPort memory before it ⟨state', prevIt, uri'⟩) := by
  unfold finishPort
  simp only
  split
  · exact ⟨_, rfl, { kept with
      portstr := Or.inl rfl
      port := Or.inl rfl
      before := fun early => by cases early
      user := fun inside => by cases inside }⟩
  · exact ⟨rfl, { kept with portstr := Or.inl rfl }⟩

/-- Two loops in the middle of the same parse take the same turn. -/
theorem turn_alike (comparable : Comparable old old') (alike : Alike old old' l l') :
    (turn after before curChar ahead l).Agree (fun _ => Alike old old') (SameOutcome old old')
      (turn after before curChar ahead l') := by
  obtain ⟨uri', rfl, kept⟩ := alike
  obtain ⟨state, prevIt, uri⟩ := l
  simp only at kept ⊢
  cases state
  case schemeStart =>
    simp only [turn]
    split
    · exact kept.move (by decide)
    · split
      · exact ⟨_, rfl, { kept with scheme := Or.inl rfl, user := fun inside => by cases inside }⟩
      · exact kept.sameOutcome _
  case usernameOrHostname =>
    simp only [turn]
    split
    · exact kept.move (by decide)
    · split
      · exact ⟨_, rfl, { kept with username := Or.inl (Or.inl rfl), user := fun _ => rfl }⟩
      · split
        · exact ⟨_, rfl, { kept with
            username := Or.inl (Or.inl rfl)
            before := fun early => by cases early
            user := fun inside => by cases inside }⟩
        · split
          · exact ⟨_, rfl, { kept with
              hostname := Or.inl rfl
              before := fun early => by cases early
              user := fun inside => by cases inside }⟩
          · exact kept.sameOutcome _
  case portOrPassword =>
    obtain ⟨left, left'⟩ := kept.before rfl
    have exchanged : Kept old old' .hostname { uri with
          hostname := uri.username, username := uri.hostname }
        { uri' with hostname := uri'.username, username := uri'.hostname } :=
      { kept with
        hostname := Or.inl (kept.user rfl)
        username := Or.inr ⟨left, left'⟩
        before := fun early => by cases early
        user := fun inside => by cases inside }
    simp only [turn]
    split
    · exact kept.move (by decide)
    · split
      · exact finishPort_alike _ _ exchanged
      · split
        · exact kept.move (by decide)
        · split
          · exact ⟨_, rfl, { kept with
              password := Or.inl rfl
              before := fun early => by cases early
              user := fun inside => by cases inside }⟩
          · exact kept.sameOutcome _
  case password =>
    simp only [turn]
    split
    · exact kept.move (by decide)
    · split
      · exact ⟨_, rfl, { kept with password := Or.inl rfl }⟩
      · exact kept.sameOutcome _
  case hostname =>
    simp only [turn]
    split
    · exact kept.move (by decide)
    · split
      · exact ⟨_, rfl, { kept with
          hostname := Or.inl rfl
          before := fun early => by cases early }⟩
      · split
        · exact ⟨_, rfl, { kept with
            hostname := Or.inl rfl
            before := fun early => by cases early }⟩
        · exact kept.sameOutcome _
  case port =>
    simp only [turn]
    split
    · exact kept.move (by decide)
    · split
      · exact finishPort_alike _ _ kept
      · exact kept.sameOutcome _
  case path =>
    simp only [turn]
    split
    · exact ⟨_, rfl, { kept with path := Or.inl rfl }⟩
    · split
      · exact ⟨_, rfl, { kept with path := Or.inl rfl }⟩
      · exact kept.move (by decide)
  case hashStart =>
    exact parseQueries_alike _ { kept with fragment := Or.inl rfl } kept.noQueries
      (kept.querystr_cases comparable)
  case query =>
    simp only [turn]
    split
    · exact ⟨_, rfl, { kept with querystr := Or.inl rfl }⟩
    · exact kept.move (by decide)
  all_goals
    simp only [turn]
    repeat' split
    all_goals first
      | exact kept.sameOutcome _
      | exact kept.move (by decide)

/-- The end of the buffer leads to the same verdict and stores the same. -/
theorem finish_alike (comparable : Comparable old old') (buf : List Byte)
    (alike : Alike old old' l l') : SameOutcome old old' (finish buf l) (finish buf l') := by
  obtain ⟨uri', rfl, kept⟩ := alike
  have paths : l.uri.path.size = 0 ↔ uri'.path.size = 0 := by
    rcases kept.path with same | ⟨left, left'⟩
    · rw [same]
    · rw [left, left']
      exact comparable.path
  have queries : l.uri.querystr.size = 0 ↔ uri'.querystr.size = 0 := by
    rcases kept.querystr_cases comparable with same | ⟨none, none'⟩
    · rw [same]
    · simp only [none, none']
  unfold finish
  simp only [← paths, ← queries]
  split
  · exact ⟨rfl, { kept with path := Or.inl rfl }⟩
  · split
    · exact parseQueries_alike buf { kept with querystr := Or.inl rfl } kept.noQueries (Or.inl rfl)
    · exact kept.sameOutcome _

end Alike

/-! ### Uris that are used again -/

/-- A parse stores the same into two uris, or leaves a component as it was in both, and adds the
same queries. The verdict is the same if both had a path or none had one, and both had the same
query string or none had one. -/
theorem parse_addsUri (after buf : List Byte) {old old' : Uri} (comparable : Comparable old old') :
    SameOutcome old old' (parse after old buf) (parse after old' buf) := by
  have none (uri : Uri) : uri.queries = uri.queries ++ [] := (List.append_nil _).symm
  have started : Alike old old' ⟨.schemeStart, 0, old⟩ ⟨.schemeStart, 0, old'⟩ :=
    ⟨old', rfl, ⟨⟨.inr ⟨rfl, rfl⟩, .inl (.inr ⟨rfl, rfl⟩), .inr ⟨rfl, rfl⟩, .inr ⟨rfl, rfl⟩,
      .inr ⟨rfl, rfl⟩, .inr ⟨rfl, rfl⟩, .inr ⟨rfl, rfl⟩, .inr ⟨rfl, rfl⟩, .inr ⟨rfl, rfl⟩,
      ⟨[], none old, none old'⟩⟩, fun _ => ⟨rfl, rfl⟩, (fun inside => by cases inside),
      rfl, rfl⟩⟩
  refine run_agree (fun _ _ => Alike old old') started ?_ (fun _ _ _ _ _ alike => alike)
    (fun _ _ => finish_alike comparable buf) fun _ _ _ => finish_alike comparable buf
  exact fun _ _ _ _ _ _ alike => turn_alike comparable alike

/-- A uri that holds the path of an earlier buffer. -/
def usedUri : Uri := { Uri.fresh with path := .elsewhere (ascii "/old") }

theorem parse_addsUri_usedUri :
    SameOutcome usedUri { usedUri with fragment := .elsewhere (ascii "f") }
    (parse [] usedUri (ascii "http://h/p?n=v#top"))
    (parse [] { usedUri with fragment := .elsewhere (ascii "f") } (ascii "http://h/p?n=v#top")) :=
  parse_addsUri [] (ascii "http://h/p?n=v#top") ⟨Iff.rfl, Or.inl rfl⟩

/-- What a uri held before has no influence on what is read into it. -/
def ForgetsTheUri : Prop :=
  ∀ (after : List Byte) (old old' : Uri) (buf : List Byte),
    (parse after old buf).verdict = (parse after old' buf).verdict ∧
      ((parse after old buf).verdict = .completed →
        components buf (parse after old buf).uri = components buf (parse after old' buf).uri)

/-- A path that is there already makes the new one a query string. -/
theorem not_forgetsTheUri : ¬ ForgetsTheUri := by
  intro forgets
  have same := (forgets [] Uri.fresh usedUri (ascii "http://h/p")).1
  exact absurd same (by decide +kernel)

end UriParser

end Sheep
