/-
This file finds out who closes the descriptor of a connection. The body of
`~Connection` closes it, and so does the destructor of its `Socket`, which runs
next: every session that ends closes its descriptor twice. If the number has been
given to a new connection between the two closes, the second one closes that.
-/

import Sheep.Connection

namespace Sheep

namespace Connections

/-! ### Closing once -/

/-- A call of `close` by the session of a call of `accept`. -/
def Event.closes (k : Nat) : Event → Bool
  | .closed j _ _ => j == k
  | _ => false

/-- A close of the descriptor that a call of `accept` returned. -/
def Event.hits (k : Nat) : Event → Bool
  | .closed _ _ hit => hit == some (.accepted k)
  | _ => false

/-- Nothing of a session is left. -/
def Session.Over : Session → Prop
  | .dropped => True
  | .destroyed => True
  | _ => False

/-- Every accepted descriptor is closed at most once, and once when its session is over. -/
def ClosedOnce (s : State) (trace : List Event) : Prop :=
  ∀ k fd, .accepted k fd ∈ trace → trace.countP (Event.closes k) ≤ 1 ∧
    ((s.session k).Over → trace.countP (Event.closes k) = 1)

/-- No session closes a descriptor that belongs to another one. -/
def NothingStolen (trace : List Event) : Prop :=
  ∀ k fd j, .closed k fd (some (.accepted j)) ∈ trace → j = k

variable {s next : State} {trace events : List Event} {action : Action}

/-! ### What a step does -/

/-- The steps, case by case. -/
inductive Happens (s next : State) (events : List Event) : Action → Prop
  | accept {fd : Int} : 0 ≤ fd → s.table fd = none → next = s.accept fd →
      events = [.accepted s.count fd] → Happens s next events (.accept fd)
  | destroyConnection {k : Nat} {connection : Connection} : s.session k = .live connection →
      next = (s.close connection.getFd).setSession k (.bodyRun connection) →
      events = [.closed k connection.getFd (s.table connection.getFd)] →
      Happens s next events (.destroyConnection k)
  | destroySocket {k : Nat} {connection : Connection} : s.session k = .bodyRun connection →
      connection.getFd ≠ -1 → next = (s.close connection.getFd).setSession k .destroyed →
      events = [.closed k connection.getFd (s.table connection.getFd)] →
      Happens s next events (.destroySocket k)
  | destroyEmpty {k : Nat} {connection : Connection} : s.session k = .bodyRun connection →
      connection.getFd = -1 → next = s.setSession k .destroyed → events = [] →
      Happens s next events (.destroySocket k)

theorem happens_of_step (step : system s action = some (next, events)) :
    Happens s next events action := by
  cases action with
  | accept fd =>
    rw [system] at step
    split at step
    · rename_i free
      cases step
      exact .accept free.1 free.2 rfl rfl
    · cases step
  | destroyConnection k =>
    rw [system] at step
    split at step
    · rename_i connection live
      cases step
      exact .destroyConnection live rfl rfl
    · cases step
  | destroySocket k =>
    rw [system] at step
    split at step
    · rename_i connection bodyRun
      simp only at step
      split at step
      · rename_i present
        cases step
        exact .destroySocket bodyRun present rfl rfl
      · rename_i empty
        cases step
        exact .destroyEmpty bodyRun (not_not.mp empty) rfl rfl
    · cases step

/-! ### How often a session calls close -/

/-- The calls of `close` that a session has made. -/
def Session.closes : Session → Nat
  | .bodyRun _ => 1
  | .destroyed => 2
  | _ => 0

/-- The connection of a session. -/
def Session.connection : Session → Option Connection
  | .live connection => some connection
  | .bodyRun connection => some connection
  | _ => none

/-- The trace tells what has become of every session. -/
structure Tracked (s : State) (trace : List Event) : Prop where
  fresh : ∀ k, s.count ≤ k → s.session k = .absent
  positive : ∀ k connection, (s.session k).connection = some connection → 1 ≤ connection.getFd
  counted : ∀ k, trace.countP (Event.closes k) = (s.session k).closes
  accepted : ∀ k, s.session k ≠ .absent ↔ ∃ fd, .accepted k fd ∈ trace

/-- A session goes on with a close. -/
theorem Tracked.close (tracked : Tracked s trace) {k : Nat} {fd : Int} {hit : Option Owner}
    {session : Session} (fd' : Int) (was : s.session k ≠ .absent) (is : session ≠ .absent)
    (closes : session.closes = (s.session k).closes + 1)
    (connection : ∀ connection, session.connection = some connection →
      (s.session k).connection = some connection) :
    Tracked ((s.close fd').setSession k session) (trace ++ [.closed k fd hit]) := by
  refine ⟨fun j le => ?_, fun j given has => ?_, fun j => ?_, fun j => ?_⟩ <;>
    by_cases this : j = k
  · subst this
    exact absurd (tracked.fresh j le) was
  · rw [State.setSession_session_other _ _ _ this]
    exact tracked.fresh j le
  · subst this
    rw [State.setSession_session_self] at has
    exact tracked.positive j given (connection given has)
  · rw [State.setSession_session_other _ _ _ this] at has
    exact tracked.positive j given has
  · subst this
    rw [List.countP_append, tracked.counted, State.setSession_session_self, closes,
      List.countP_singleton, Event.closes, beq_self_eq_true, if_pos rfl]
  · rw [List.countP_append, tracked.counted, State.setSession_session_other _ _ _ this,
      List.countP_singleton, Event.closes, if_neg fun same => this (beq_iff_eq.mp same).symm]
    rfl
  · subst this
    rw [State.setSession_session_self]
    refine iff_of_true is ?_
    obtain ⟨fd, member⟩ := (tracked.accepted j).mp was
    exact ⟨fd, List.mem_append_left _ member⟩
  · rw [State.setSession_session_other _ _ _ this]
    refine (tracked.accepted j).trans ⟨fun ⟨fd, member⟩ => ⟨fd, List.mem_append_left _ member⟩,
      fun ⟨fd, member⟩ => ⟨fd, ?_⟩⟩
    exact (List.mem_append.mp member).resolve_right fun last => nomatch List.mem_singleton.mp last

theorem serve_cases (fd : Int) : fd < 1 ∧ serve fd = .dropped ∨
    1 ≤ fd ∧ serve fd = .live ⟨⟨fd⟩⟩ := by
  rw [serve]
  split
  · rename_i small
    exact Or.inl ⟨small, rfl⟩
  · rename_i large
    exact Or.inr ⟨by omega, rfl⟩

theorem Tracked.accept (tracked : Tracked s trace) (fd : Int) :
    Tracked (s.accept fd) (trace ++ [.accepted s.count fd]) := by
  have absent := tracked.fresh s.count (Nat.le_refl _)
  refine ⟨fun j le => ?_, fun j given has => ?_, fun j => ?_, fun j => ?_⟩
  · have different : j ≠ s.count := fun same => by
      rw [same] at le
      exact absurd le (Nat.not_succ_le_self _)
    rw [State.accept, State.setSession_session_other _ _ _ different]
    exact tracked.fresh j (Nat.le_of_succ_le le)
  · by_cases this : j = s.count
    · subst this
      rw [State.accept, State.setSession_session_self] at has
      rcases serve_cases fd with ⟨_, same⟩ | ⟨large, same⟩ <;> rw [same] at has <;> cases has
      exact large
    · rw [State.accept, State.setSession_session_other _ _ _ this] at has
      exact tracked.positive j given has
  · rw [List.countP_append, tracked.counted]
    by_cases this : j = s.count
    · subst this
      rw [State.accept, State.setSession_session_self, absent]
      rcases serve_cases fd with ⟨_, same⟩ | ⟨_, same⟩ <;> rw [same] <;> rfl
    · rw [State.accept, State.setSession_session_other _ _ _ this]
      rfl
  · by_cases this : j = s.count
    · subst this
      refine iff_of_true ?_ ⟨fd, List.mem_append_right _ List.mem_cons_self⟩
      rw [State.accept, State.setSession_session_self]
      rcases serve_cases fd with ⟨_, same⟩ | ⟨_, same⟩ <;> rw [same] <;> exact nofun
    · rw [State.accept, State.setSession_session_other _ _ _ this]
      refine (tracked.accepted j).trans ⟨fun ⟨fd, member⟩ => ⟨fd, List.mem_append_left _ member⟩,
        fun ⟨fd', member⟩ => ⟨fd', ?_⟩⟩
      refine (List.mem_append.mp member).resolve_right fun last => ?_
      cases List.mem_singleton.mp last
      exact this rfl

theorem tracked_of_happens (tracked : Tracked s trace) (happens : Happens s next events action) :
    Tracked next (trace ++ events) := by
  cases happens with
  | accept _ _ same same' =>
    subst same
    subst same'
    exact tracked.accept _
  | destroyConnection live same same' =>
    subst same
    subst same'
    refine tracked.close _ ?_ nofun ?_ ?_ <;> rw [live]
    · exact nofun
    · rfl
    · exact fun _ => id
  | destroySocket bodyRun _ same same' =>
    subst same
    subst same'
    refine tracked.close _ ?_ nofun ?_ nofun <;> rw [bodyRun]
    · exact nofun
    · rfl
  | @destroyEmpty k connection bodyRun empty _ _ =>
    have positive := tracked.positive k connection (by rw [bodyRun]; rfl)
    omega

variable {table : Int → Option Owner}

theorem tracked_of_reaches (run : Transitions.Reaches system (start table) s trace) :
    Tracked s trace := by
  refine run.invariant Tracked ?_
    fun _ _ _ _ _ _ tracked step => tracked_of_happens tracked (happens_of_step step)
  exact ⟨fun _ _ => rfl, nofun, fun _ => rfl, fun _ => iff_of_false (fun given => given rfl)
    fun ⟨_, member⟩ => nomatch member⟩

/-! ### Whose descriptors are closed -/

/-- The descriptor of a live connection is its own. -/
def Owned (s : State) : Prop :=
  ∀ k connection, s.session k = .live connection →
    s.table connection.getFd = some (.accepted k)

/-- The second close of a connection closes nothing of another one. -/
def Harmless (s : State) : Action → Prop
  | .destroySocket k => ∀ connection j, s.session k = .bodyRun connection →
      s.table connection.getFd ≠ some (.accepted j)
  | _ => True

theorem Owned.other (owned : Owned s) (fd : Int) {k : Nat} {connection : Connection}
    (live : s.session k = .live connection) (foreign : s.table fd ≠ some (.accepted k)) :
    connection.getFd ≠ fd := by
  rintro rfl
  exact foreign (owned k connection live)

theorem owned_of_happens (owned : Owned s) (harmless : Harmless s action)
    (happens : Happens s next events action) : Owned next ∧ NothingStolen events := by
  cases happens with
  | @accept fd _ free same same' =>
    subst same
    subst same'
    refine ⟨fun k connection live => ?_, fun _ _ _ member => nomatch List.mem_singleton.mp member⟩
    rw [State.accept, State.setSession_table]
    by_cases this : k = s.count
    · subst this
      rw [State.accept, State.setSession_session_self] at live
      rcases serve_cases fd with ⟨_, same⟩ | ⟨_, same⟩ <;> rw [same] at live <;> cases live
      exact Function.update_self ..
    · rw [State.accept, State.setSession_session_other _ _ _ this] at live
      have different := owned.other fd live (by rw [free]; exact nofun)
      exact (Function.update_of_ne different ..).trans (owned k connection live)
  | @destroyConnection k connection live same same' =>
    subst same
    subst same'
    have own := owned k connection live
    refine ⟨fun j given live' => ?_, fun k' fd j member => ?_⟩
    · have this : j ≠ k := by
        rintro rfl
        rw [State.setSession_session_self] at live'
        cases live'
      rw [State.setSession_session_other _ _ _ this] at live'
      have different := owned.other connection.getFd live' (by
        rw [own]
        exact fun same => this (by cases same; rfl))
      exact (Function.update_of_ne different ..).trans (owned j given live')
    · rw [own] at member
      cases List.mem_singleton.mp member
      rfl
  | @destroySocket k connection bodyRun _ same same' =>
    subst same
    subst same'
    have foreign := harmless connection
    refine ⟨fun j given live => ?_, fun k' fd j member => ?_⟩
    · have this : j ≠ k := by
        rintro rfl
        rw [State.setSession_session_self] at live
        cases live
      rw [State.setSession_session_other _ _ _ this] at live
      have different := owned.other _ live (foreign j bodyRun)
      exact (Function.update_of_ne different ..).trans (owned j given live)
    · injection List.mem_singleton.mp member with _ _ hit
      exact absurd hit.symm (foreign j bodyRun)
  | @destroyEmpty k connection bodyRun _ same same' =>
    subst same
    subst same'
    refine ⟨fun j given live => ?_, fun _ _ _ member => nomatch member⟩
    have this : j ≠ k := by
      rintro rfl
      rw [State.setSession_session_self] at live
      cases live
    rw [State.setSession_session_other _ _ _ this] at live
    exact owned j given live

theorem NothingStolen.append (first : NothingStolen trace) (second : NothingStolen events) :
    NothingStolen (trace ++ events) :=
  fun k fd j member => (List.mem_append.mp member).elim (first k fd j) (second k fd j)

/-- What is over stays over. -/
theorem over_of_happens (tracked : Tracked s trace) (happens : Happens s next events action)
    {k : Nat} (ended : (s.session k).Over) : (next.session k).Over := by
  have kept {middle : State} {j : Nat} {session : Session} (same : middle.session = s.session)
      (notOver : ¬ (s.session j).Over) : ((middle.setSession j session).session k).Over := by
    rw [State.setSession_session_other, same]
    · exact ended
    · rintro rfl
      exact notOver ended
  cases happens with
  | accept _ _ same _ =>
    subst same
    refine kept rfl ?_
    rw [tracked.fresh s.count (Nat.le_refl _)]
    exact id
  | destroyConnection live same _ =>
    subst same
    refine kept rfl ?_
    rw [live]
    exact id
  | destroySocket bodyRun _ same _ =>
    subst same
    refine kept rfl ?_
    rw [bodyRun]
    exact id
  | destroyEmpty bodyRun _ same _ =>
    subst same
    refine kept rfl ?_
    rw [bodyRun]
    exact id

/-- While no session is over nothing is stolen. -/
theorem nothingStolen_of_not_over (run : Transitions.Reaches system (start table) s trace)
    (notOver : ∀ k, ¬ (s.session k).Over) : NothingStolen trace := by
  have both : Owned s ∧ NothingStolen trace := by
    refine run.invariant
      (fun s trace => (∀ k, ¬ (s.session k).Over) → Owned s ∧ NothingStolen trace) ?_ ?_ notOver
    · exact fun _ => ⟨nofun, nofun⟩
    · intro s trace action next events run inductionHypothesis step notOver
      have happens := happens_of_step step
      obtain ⟨owned, nothing⟩ := inductionHypothesis fun k ended =>
        notOver k (over_of_happens (tracked_of_reaches run) happens ended)
      have harmless : Harmless s action := by
        cases happens with
        | accept _ _ _ _ => exact trivial
        | destroyConnection _ _ _ => exact trivial
        | @destroySocket k _ _ _ same _ =>
          refine absurd ?_ (notOver k)
          rw [same, State.setSession_session_self]
          exact trivial
        | @destroyEmpty k _ _ _ same _ =>
          refine absurd ?_ (notOver k)
          rw [same, State.setSession_session_self]
          exact trivial
      obtain ⟨owned', nothing'⟩ := owned_of_happens owned harmless happens
      exact ⟨owned', nothing.append nothing'⟩
  exact both.2

/-- Every accepted descriptor is closed once and none is stolen, just while no session is over. -/
theorem closedOnce_iff (run : Transitions.Reaches system (start table) s trace) :
    ClosedOnce s trace ∧ NothingStolen trace ↔ ∀ k, ¬ (s.session k).Over := by
  have tracked := tracked_of_reaches run
  constructor
  · rintro ⟨once, _⟩ k ended
    obtain ⟨fd, member⟩ := (tracked.accepted k).mp fun absent => by
      rw [absent] at ended
      exact ended
    have exactly := (once k fd member).2 ended
    rw [tracked.counted] at exactly
    cases session : s.session k <;> rw [session] at ended exactly <;>
      first | exact ended | exact absurd exactly (by decide)
  · refine fun notOver => ⟨fun k fd _ => ⟨?_, fun ended => absurd ended (notOver k)⟩,
      nothingStolen_of_not_over run notOver⟩
    have still := notOver k
    rw [tracked.counted]
    cases session : s.session k <;> rw [session] at still <;>
      first | exact absurd trivial still | exact Nat.le_refl _ | exact Nat.zero_le _

/-! ### Numbers that are not given away too early -/

/-- `accept` does not return 0, which `serve` drops, nor the number of a connection that is between
its two closes. -/
def Spaced (s : State) : Action → Prop
  | .accept fd => 1 ≤ fd ∧ ∀ k connection, s.session k = .bodyRun connection →
      connection.getFd ≠ fd
  | _ => True

/-- How often the descriptor of a session has been closed. -/
def Session.hits : Session → Nat
  | .bodyRun _ => 1
  | .destroyed => 1
  | _ => 0

/-- The second close of a connection finds nothing to close. -/
structure Spared (s : State) (trace : List Event) : Prop where
  owned : Owned s
  released : ∀ k connection, s.session k = .bodyRun connection →
    s.table connection.getFd = none
  kept : ∀ k, s.session k ≠ .dropped
  hits : ∀ k, trace.countP (Event.hits k) = (s.session k).hits
  nothingStolen : NothingStolen trace

theorem Spared.harmless (spared : Spared s trace) (action : Action) : Harmless s action := by
  cases action with
  | destroySocket k =>
    intro connection j bodyRun stolen
    rw [spared.released k connection bodyRun] at stolen
    cases stolen
  | accept _ => exact trivial
  | destroyConnection _ => exact trivial

theorem table_close {fd fd' : Int} (closed : s.table fd = none ∨ fd = fd') :
    (s.close fd').table fd = none := by
  by_cases this : fd = fd'
  · rw [this]
    exact Function.update_self ..
  · exact (Function.update_of_ne this ..).trans (closed.resolve_right this)

theorem spared_of_happens (tracked : Tracked s trace) (spared : Spared s trace)
    (spaced : Spaced s action) (happens : Happens s next events action) :
    Spared next (trace ++ events) := by
  obtain ⟨owned, nothing⟩ := owned_of_happens spared.owned (spared.harmless action) happens
  cases happens with
  | @accept fd _ _ same same' =>
    subst same
    subst same'
    have live : serve fd = .live ⟨⟨fd⟩⟩ :=
      (serve_cases fd).elim (fun small => absurd spaced.1 (Int.not_le.mpr small.1))
        fun large => large.2
    refine ⟨owned, fun j given bodyRun => ?_, fun j => ?_, fun j => ?_,
      spared.nothingStolen.append nothing⟩ <;>
      by_cases this : j = s.count
    · subst this
      rw [State.accept, State.setSession_session_self, live] at bodyRun
      cases bodyRun
    · rw [State.accept, State.setSession_session_other _ _ _ this] at bodyRun
      have different := spaced.2 j given bodyRun
      exact (Function.update_of_ne different ..).trans (spared.released j given bodyRun)
    · subst this
      rw [State.accept, State.setSession_session_self, live]
      exact nofun
    · rw [State.accept, State.setSession_session_other _ _ _ this]
      exact spared.kept j
    · subst this
      rw [List.countP_append, spared.hits, tracked.fresh _ (Nat.le_refl _), State.accept,
        State.setSession_session_self, live]
      rfl
    · rw [List.countP_append, spared.hits, State.accept,
        State.setSession_session_other _ _ _ this]
      rfl
  | @destroyConnection k connection live same same' =>
    subst same
    subst same'
    have own := spared.owned k connection live
    refine ⟨owned, fun j given bodyRun => ?_, fun j => ?_, fun j => ?_,
      spared.nothingStolen.append nothing⟩ <;>
      by_cases this : j = k
    · subst this
      rw [State.setSession_session_self] at bodyRun
      cases bodyRun
      exact table_close (Or.inr rfl)
    · rw [State.setSession_session_other _ _ _ this] at bodyRun
      exact table_close (Or.inl (spared.released j given bodyRun))
    · subst this
      rw [State.setSession_session_self]
      exact nofun
    · rw [State.setSession_session_other _ _ _ this]
      exact spared.kept j
    · subst this
      rw [List.countP_append, spared.hits, live, State.setSession_session_self, own,
        List.countP_singleton, Event.hits, beq_self_eq_true]
      rfl
    · rw [List.countP_append, spared.hits, State.setSession_session_other _ _ _ this, own,
        List.countP_singleton, Event.hits, if_neg]
      · rfl
      · rw [beq_iff_eq]
        exact fun same => this (by cases same; rfl)
  | @destroySocket k connection bodyRun _ same same' =>
    subst same
    subst same'
    have free := spared.released k connection bodyRun
    refine ⟨owned, fun j given bodyRun' => ?_, fun j => ?_, fun j => ?_,
      spared.nothingStolen.append nothing⟩ <;>
      by_cases this : j = k
    · subst this
      rw [State.setSession_session_self] at bodyRun'
      cases bodyRun'
    · rw [State.setSession_session_other _ _ _ this] at bodyRun'
      exact table_close (Or.inl (spared.released j given bodyRun'))
    · subst this
      rw [State.setSession_session_self]
      exact nofun
    · rw [State.setSession_session_other _ _ _ this]
      exact spared.kept j
    · subst this
      rw [List.countP_append, spared.hits, bodyRun, State.setSession_session_self, free]
      rfl
    · rw [List.countP_append, spared.hits, State.setSession_session_other _ _ _ this, free]
      rfl
  | @destroyEmpty k connection bodyRun empty _ _ =>
    have positive := tracked.positive k connection (by rw [bodyRun]; rfl)
    omega

theorem spared_of_reachesBy (run : Transitions.ReachesBy Spaced system (start table) s trace) :
    Spared s trace := by
  refine run.invariant Spared ?_ fun _ _ _ _ _ run spared spaced step =>
    spared_of_happens (tracked_of_reaches run.reaches) spared spaced (happens_of_step step)
  exact ⟨nofun, nofun, fun _ => nofun, fun _ => rfl, nofun⟩

/-- A number that is given away too early is stolen from the new connection. -/
theorem stolen_of_early (run : Transitions.Reaches system (start table) s trace) {k : Nat}
    {connection : Connection} (bodyRun : s.session k = .bodyRun connection)
    (step : system s (.accept connection.getFd) = some (next, events)) :
    ∃ later, system next (.destroySocket k) =
        some (later, [.closed k connection.getFd (some (.accepted s.count))]) ∧
      next.session s.count = .live connection ∧ s.count ≠ k := by
  have positive := (tracked_of_reaches run).positive k connection (by rw [bodyRun]; rfl)
  have different : k ≠ s.count := by
    rintro rfl
    rw [(tracked_of_reaches run).fresh _ (Nat.le_refl _)] at bodyRun
    cases bodyRun
  rw [system] at step
  split at step
  · cases step
    have still : (s.accept connection.getFd).session k = .bodyRun connection := by
      rw [State.accept, State.setSession_session_other _ _ _ different, bodyRun]
    have owner : (s.accept connection.getFd).table connection.getFd =
        some (.accepted s.count) := Function.update_self ..
    have present : connection.sock.fd ≠ -1 := by
      rw [Connection.getFd] at positive
      omega
    refine ⟨((s.accept connection.getFd).close connection.getFd).setSession k .destroyed, ?_, ?_,
      different.symm⟩
    · rw [← owner, system, still]
      exact if_pos present
    · rw [State.accept, State.setSession_session_self, serve, if_neg (Int.not_lt.mpr positive)]
      rfl
  · cases step

/-! ### When descriptors are closed once -/

/-- Who closes the descriptors, in every run from a table of open descriptors. -/
structure ClosesDescriptors (table : Int → Option Owner) : Prop where
  /-- Every accepted descriptor is closed once, and none is stolen, while no session is over. -/
  once : ∀ s trace, Transitions.Reaches system (start table) s trace →
    (ClosedOnce s trace ∧ NothingStolen trace ↔ ∀ k, ¬ (s.session k).Over)
  /-- A session that is over has called `close` twice, or not at all. -/
  calls : ∀ s trace, Transitions.Reaches system (start table) s trace →
    ∀ k, trace.countP (Event.closes k) = (s.session k).closes
  /-- The second call does no harm while no number is given away too early. -/
  spared : ∀ s trace, Transitions.ReachesBy Spaced system (start table) s trace →
    NothingStolen trace ∧ (∀ k, s.session k ≠ .dropped) ∧
      ∀ k, trace.countP (Event.hits k) = (s.session k).hits
  /-- Where one is, the next step of the destructor closes the descriptor of a live connection. -/
  stolen : ∀ s trace k connection next events,
    Transitions.Reaches system (start table) s trace → s.session k = .bodyRun connection →
    system s (.accept connection.getFd) = some (next, events) →
    ∃ later, system next (.destroySocket k) =
        some (later, [.closed k connection.getFd (some (.accepted s.count))]) ∧
      next.session s.count = .live connection ∧ s.count ≠ k

theorem closesDescriptors (table : Int → Option Owner) : ClosesDescriptors table where
  once _ _ run := closedOnce_iff run
  calls _ _ run := (tracked_of_reaches run).counted
  spared _ _ run := ⟨(spared_of_reachesBy run).nothingStolen, (spared_of_reachesBy run).kept,
    (spared_of_reachesBy run).hits⟩
  stolen _ _ _ _ _ _ run bodyRun step := stolen_of_early run bodyRun step

section Example

/-- A session ends; between its two closes its number is given to a second connection. -/
def reused : List Action :=
  [.accept 5, .destroyConnection 0, .accept 5, .destroySocket 0]

theorem not_closedOnce_reused : ¬ ∀ s trace,
    Transitions.Reaches system (start fun _ => none) s trace →
    ClosedOnce s trace ∧ NothingStolen trace := by
  have traced : (Transitions.execute system (start fun _ => none) reused).map
      (fun reached => reached.2) = some [.accepted 0 5, .closed 0 5 (some (.accepted 0)),
        .accepted 1 5, .closed 0 5 (some (.accepted 1))] := rfl
  obtain ⟨⟨s, trace⟩, executed, same⟩ := Option.map_eq_some_iff.mp traced
  intro always
  obtain ⟨_, nothing⟩ := always s trace (Transitions.reaches_of_execute executed)
  rw [show trace = _ from same] at nothing
  exact absurd (nothing 0 5 1 (by decide)) (by decide)

end Example

end Connections

end Sheep
