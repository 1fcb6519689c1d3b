/-
This file models `Server::serve`, the loop that accepts connections, makes a session
for each and submits it to the thread pool, and finds out when it goes on.

`Socket::accept` throws where the system call fails, but the loop only tests what it
returns. So the exception leaves the loop: the promise of the coroutine keeps it, and
the coroutine has come to its end. An address has room for a `struct sockaddr`, which
is what IPv4 needs, and its constructor does not set the protocol.
-/

import Mathlib.Data.List.Forall2
import Mathlib.Data.List.Induction
import Mathlib.Data.List.Nodup
import Sheep.Connection
import Sheep.Task

namespace Sheep

namespace Server

/-! ### Addresses -/

inductive Protocol
  | ipv4
  | ipv6
deriving DecidableEq, Repr

/-- The size of a `sockaddr_in` and of a `sockaddr_in6`. -/
def Protocol.sockaddrSize : Protocol → Nat
  | .ipv4 => 16
  | .ipv6 => 28

/-- The address of a client, as the kernel knows it. -/
structure Peer where
  protocol : Protocol
  sockaddr : List UInt8
  sized : sockaddr.length = protocol.sockaddrSize

/-- `Address`. A `struct sockaddr` has 16 bytes. -/
structure Address where
  protocol : Protocol
  addr : Vector UInt8 16
  addrLen : Nat

/-- `Address::Address()`, which leaves `protocol_` as it finds it in memory. -/
def Address.make (uninitialised : Protocol) : Address where
  protocol := uninitialised
  addr := Vector.replicate 16 0
  addrLen := 16

/-- The kernel writes no more than there is room for, and the size of the whole address. -/
def Address.fill (address : Address) (peer : Peer) : Address :=
  { address with
    addr := Vector.ofFn fun i =>
      ((peer.sockaddr.take address.addrLen)[i.val]?).getD address.addr[i.val],
    addrLen := peer.sockaddr.length }

/-- The address is that of the client. -/
structure Address.Of (address : Address) (peer : Peer) : Prop where
  protocol : address.protocol = peer.protocol
  bytes : address.addr.toList.take address.addrLen = peer.sockaddr

/-! ### Accepting -/

/-- What the system call `accept` does. -/
inductive Accepted
  | failed (errno : Nat)
  | fd (client_fd : Nat) (peer : Peer)

inductive Exception
  | logicError (what : String)
deriving DecidableEq, Repr

/-- `Socket::accept`. -/
def accept (addr : Address) : Accepted → Except Exception (Int × Address)
  | .failed _ => .error (.logicError "Socket: accept() error!")
  | .fd client_fd peer => .ok (client_fd, addr.fill peer)

structure Connection where
  sock : Connections.Socket
  addr : Address

def Connection.getFd (connection : Connection) : Int := connection.sock.fd

/-- `session_wrapper`: a coroutine handle, and a pointer to a Connection. -/
structure SessionWrapper where
  coro : Nat
  conn : Nat
deriving DecidableEq, Repr

/-- The frame of `serve`, the Connections and the frames of sessions that it has made, each frame
with the Connection it owns, and the calls of `submit`. -/
structure State where
  frame : Task.Frame Unit Unit Exception
  connections : List Connection
  sessions : List Nat
  submitted : List SessionWrapper

/-- A round of the loop: what `accept` does, and what `protocol_` of `client_addr` holds before. -/
structure Round where
  uninitialised : Protocol
  result : Accepted

/-- The loop is entered. -/
def start : State where
  frame := ⟨⟨none, none, ()⟩, .running⟩
  connections := []
  sessions := []
  submitted := []

/-- `unhandled_exception` and `final_suspend`. -/
def State.unhandledException (s : State) (exception : Exception) : State :=
  { s with frame := (s.frame.unhandledException exception).setPoint .final }

/-- A Connection for an accepted descriptor, a frame that owns it, and its session. The handler is a
coroutine, which is suspended at its start. -/
def State.submit (s : State) (client_fd : Int) (client_addr : Address) : State :=
  let pconn := s.connections.length
  { s with
    connections := s.connections ++ [⟨⟨client_fd⟩, client_addr⟩],
    sessions := s.sessions ++ [pconn],
    submitted := s.submitted ++ [⟨s.sessions.length, pconn⟩] }

/-- One round of the loop. -/
def State.round (s : State) (round : Round) : State :=
  match accept (Address.make round.uninitialised) round.result with
  | .error exception => s.unhandledException exception
  | .ok (client_fd, client_addr) =>
      if client_fd < 1 then s else s.submit client_fd client_addr

/-- A coroutine that has come to its end calls `accept` no more. -/
def State.step (s : State) (round : Round) : State :=
  match s.frame.point with
  | .running => s.round round
  | _ => s

/-- `Server::serve`. -/
def serve (rounds : List Round) : State := rounds.foldl State.step start

/-! ### What is to be submitted -/

/-- The client of an accepted positive descriptor. -/
def Round.client (round : Round) : Option (Nat × Peer) :=
  match round.result with
  | .failed _ => none
  | .fd client_fd peer => if 0 < client_fd then some (client_fd, peer) else none

/-- The session carries a Connection, owned by its frame, with the descriptor and the address of a
client. -/
def Carries (s : State) (session : SessionWrapper) (client : Nat × Peer) : Prop :=
  s.sessions[session.coro]? = some session.conn ∧
    ∃ connection, s.connections[session.conn]? = some connection ∧
      connection.getFd = client.1 ∧ connection.addr.Of client.2

/-- The loop goes on, and every client has got a session of its own, in the order in which they have
been accepted. -/
structure ServesAll (s : State) (rounds : List Round) : Prop where
  looping : s.frame.point = .running
  distinct : (s.submitted.map SessionWrapper.conn).Nodup
  sessions : List.Forall₂ (Carries s) s.submitted (rounds.filterMap Round.client)

/-- The system call does not fail, and a client that gets a session has an IPv4 address, where
`protocol_` happens to say so. -/
def Round.Good (round : Round) : Prop :=
  match round.result with
  | .failed _ => False
  | .fd client_fd peer =>
      0 < client_fd → peer.protocol = .ipv4 ∧ round.uninitialised = .ipv4

/-! ### What arrives of an address -/

/-- The address of a client arrives exactly when it is an IPv4 address, and `protocol_` happens to
say so. -/
theorem of_fill_iff (uninitialised : Protocol) (peer : Peer) :
    ((Address.make uninitialised).fill peer).Of peer ↔
      peer.protocol = .ipv4 ∧ uninitialised = .ipv4 := by
  constructor
  · intro same
    have isIpv4 : peer.protocol = .ipv4 := by
      have lengths := congrArg List.length same.bytes
      have room : min peer.sockaddr.length 16 = peer.sockaddr.length := by
        rwa [List.length_take, Vector.length_toList] at lengths
      rw [peer.sized] at room
      cases protocol : peer.protocol with
      | ipv4 => rfl
      | ipv6 =>
        rw [protocol] at room
        cases room
    exact ⟨isIpv4, same.protocol.trans isIpv4⟩
  · rintro ⟨isIpv4, same⟩
    have size : peer.sockaddr.length = 16 := by
      rw [peer.sized, isIpv4]
      rfl
    refine ⟨same.trans isIpv4.symm, ?_⟩
    have whole : ((Address.make uninitialised).fill peer).addr.toList = peer.sockaddr := by
      refine List.ext_getElem (by rw [Vector.length_toList, size]) fun i _ inside => ?_
      have here : (peer.sockaddr.take (Address.make uninitialised).addrLen)[i]? =
          some peer.sockaddr[i] := by
        have room : peer.sockaddr.length ≤ (Address.make uninitialised).addrLen := Nat.le_of_eq size
        rw [List.take_of_length_le room, List.getElem?_eq_getElem inside]
      rw [Vector.getElem_toList]
      simp only [Address.fill, Vector.getElem_ofFn, here, Option.getD_some]
    rw [whole]
    exact List.take_of_length_le (Nat.le_refl _)

/-! ### What a round does -/

variable {s : State} {rounds : List Round} {round : Round}

/-- The pointers and handles of the sessions exist. -/
structure State.Closed (s : State) : Prop where
  conn : ∀ session ∈ s.submitted, session.conn < s.connections.length
  coro : ∀ session ∈ s.submitted, session.coro < s.sessions.length

theorem serve_concat (rounds : List Round) (round : Round) :
    serve (rounds ++ [round]) = (serve rounds).step round := by
  rw [serve, List.foldl_append]
  rfl

theorem step_of_running (running : s.frame.point = .running) : s.step round = s.round round := by
  rw [State.step, running]

/-- Nothing happens after the end. -/
theorem step_of_not_running (ended : s.frame.point ≠ .running) : s.step round = s := by
  unfold State.step
  split
  · rename_i running
    exact absurd running ended
  · rfl

/-- The three things that a round may do. -/
theorem round_cases (s : State) (round : Round) :
    (∃ errno, round.result = .failed errno ∧ round.client = none ∧ s.round round =
      s.unhandledException (.logicError "Socket: accept() error!")) ∨
    (∃ peer, round.result = .fd 0 peer ∧ round.client = none ∧ s.round round = s) ∨
    ∃ client_fd peer, 0 < client_fd ∧ round.result = .fd client_fd peer ∧
      round.client = some (client_fd, peer) ∧
      s.round round = s.submit client_fd ((Address.make round.uninitialised).fill peer) := by
  obtain ⟨uninitialised, result⟩ := round
  cases result with
  | failed errno => exact Or.inl ⟨errno, rfl, rfl, rfl⟩
  | fd client_fd peer =>
    cases client_fd with
    | zero => exact Or.inr (Or.inl ⟨peer, rfl, rfl, rfl⟩)
    | succ client_fd =>
      refine Or.inr (Or.inr ⟨client_fd + 1, peer, Nat.succ_pos _, rfl, rfl, ?_⟩)
      have positive : ¬ ((client_fd + 1 : Nat) : Int) < 1 := by omega
      simp only [State.round, accept, if_neg positive]

theorem closed_submit (closed : s.Closed) (client_fd : Int) (client_addr : Address) :
    (s.submit client_fd client_addr).Closed where
  conn session member := by
    rw [State.submit, List.length_append, List.length_singleton]
    rcases List.mem_append.mp member with old | new
    · exact Nat.lt_succ_of_lt (closed.conn session old)
    · rw [List.mem_singleton.mp new]
      exact Nat.lt_succ_self _
  coro session member := by
    rw [State.submit, List.length_append, List.length_singleton]
    rcases List.mem_append.mp member with old | new
    · exact Nat.lt_succ_of_lt (closed.coro session old)
    · rw [List.mem_singleton.mp new]
      exact Nat.lt_succ_self _

theorem closed_step (closed : s.Closed) (round : Round) : (s.step round).Closed := by
  by_cases running : s.frame.point = .running
  · rw [step_of_running running]
    obtain ⟨_, _, _, done⟩ | ⟨_, _, _, done⟩ | ⟨_, _, _, _, _, done⟩ := round_cases s round
    · rw [done]
      exact ⟨closed.conn, closed.coro⟩
    · rwa [done]
    · rw [done]
      exact closed_submit closed _ _
  · rwa [step_of_not_running running]

theorem closed_serve (rounds : List Round) : (serve rounds).Closed := by
  induction rounds using List.reverseRecOn with
  | nil => exact ⟨fun _ member => absurd member List.not_mem_nil,
      fun _ member => absurd member List.not_mem_nil⟩
  | append_singleton rounds round inductionHypothesis =>
    rw [serve_concat]
    exact closed_step inductionHypothesis round

/-! ### Sessions and their clients -/

/-- A session keeps what it carries when another one is submitted. -/
theorem carries_submit_iff (closed : s.Closed) {session : SessionWrapper}
    (member : session ∈ s.submitted) (client_fd : Int) (client_addr : Address)
    (client : Nat × Peer) :
    Carries (s.submit client_fd client_addr) session client ↔ Carries s session client := by
  rw [Carries, Carries, State.submit, List.getElem?_append_left (closed.coro session member),
    List.getElem?_append_left (closed.conn session member)]

/-- What the new session carries. -/
theorem carries_new_iff (client_fd : Int) (client_addr : Address) (client : Nat × Peer) :
    Carries (s.submit client_fd client_addr) ⟨s.sessions.length, s.connections.length⟩ client ↔
      client_fd = client.1 ∧ client_addr.Of client.2 := by
  rw [Carries, State.submit, List.getElem?_concat_length, List.getElem?_concat_length]
  constructor
  · rintro ⟨_, connection, found, descriptor, address⟩
    cases found
    exact ⟨descriptor, address⟩
  · rintro ⟨descriptor, address⟩
    exact ⟨rfl, _, rfl, descriptor, address⟩

/-- The old sessions still carry what they should after a new one, and the new one does exactly when
its descriptor and its address are right. -/
theorem forall₂_submit_iff (closed : s.Closed) (client_fd : Int) (client_addr : Address)
    (clients : List (Nat × Peer)) (client : Nat × Peer) :
    List.Forall₂ (Carries (s.submit client_fd client_addr))
        (s.submit client_fd client_addr).submitted (clients ++ [client]) ↔
      List.Forall₂ (Carries s) s.submitted clients ∧
        client_fd = client.1 ∧ client_addr.Of client.2 := by
  have old : List.Forall₂ (Carries (s.submit client_fd client_addr)) s.submitted clients ↔
      List.Forall₂ (Carries s) s.submitted clients := by
    constructor
    · intro all
      have both := (List.forall₂_and_left _ _).mpr ⟨fun _ member => member, all⟩
      exact both.imp fun session other carries =>
        (carries_submit_iff closed carries.1 client_fd client_addr other).mp carries.2
    · intro all
      have both := (List.forall₂_and_left _ _).mpr ⟨fun _ member => member, all⟩
      exact both.imp fun session other carries =>
        (carries_submit_iff closed carries.1 client_fd client_addr other).mpr carries.2
  rw [← old, ← carries_new_iff (s := s)]
  constructor
  · intro all
    have lengths := all.length_eq
    rw [State.submit, List.length_append, List.length_append] at lengths
    have same : clients.length = s.submitted.length := by
      rw [List.length_singleton, List.length_singleton] at lengths
      omega
    have front := List.forall₂_take_append _ _ _ all
    have back := List.forall₂_drop_append _ _ _ all
    rw [same, State.submit, List.take_left] at front
    rw [same, State.submit, List.drop_left] at back
    cases back with
    | cons carries _ => exact ⟨front, carries⟩
  · rintro ⟨front, carries⟩
    exact List.rel_append front (.cons carries .nil)

/-! ### Rounds that serve -/

theorem distinct_submit (closed : s.Closed) (client_fd : Int) (client_addr : Address)
    (distinct : (s.submitted.map SessionWrapper.conn).Nodup) :
    ((s.submit client_fd client_addr).submitted.map SessionWrapper.conn).Nodup := by
  rw [State.submit, List.map_append]
  refine List.nodup_append.mpr ⟨distinct, List.nodup_singleton _, ?_⟩
  intro pointer old other new same
  obtain ⟨session, member, rfl⟩ := List.mem_map.mp old
  have less := closed.conn session member
  rw [same, List.mem_singleton.mp new] at less
  exact Nat.lt_irrefl _ less

/-- After one more round everything is served exactly when it was before, and the round is good. -/
theorem servesAll_step_iff (closed : s.Closed) :
    ServesAll (s.step round) (rounds ++ [round]) ↔ ServesAll s rounds ∧ round.Good := by
  by_cases running : s.frame.point = .running
  · rw [step_of_running running]
    obtain ⟨errno, result, client, done⟩ | ⟨peer, result, client, done⟩ |
      ⟨client_fd, peer, positive, result, client, done⟩ := round_cases s round
    · rw [done, Round.Good, result]
      refine ⟨fun serves => ?_, fun ⟨_, never⟩ => never.elim⟩
      cases serves.looping
    · rw [done, Round.Good, result]
      have clients : (rounds ++ [round]).filterMap Round.client =
          rounds.filterMap Round.client := by
        rw [List.filterMap_append, List.filterMap_cons_none client, List.filterMap_nil,
          List.append_nil]
      constructor
      · rintro ⟨looping, distinct, sessions⟩
        rw [clients] at sessions
        exact ⟨⟨looping, distinct, sessions⟩, fun positive => absurd positive (by decide)⟩
      · rintro ⟨⟨looping, distinct, sessions⟩, _⟩
        rw [← clients] at sessions
        exact ⟨looping, distinct, sessions⟩
    · rw [done, Round.Good, result]
      have clients : (rounds ++ [round]).filterMap Round.client =
          rounds.filterMap Round.client ++ [(client_fd, peer)] := by
        rw [List.filterMap_append, List.filterMap_cons_some client, List.filterMap_nil]
      constructor
      · rintro ⟨_, distinct, sessions⟩
        rw [clients, forall₂_submit_iff closed] at sessions
        obtain ⟨sessions, _, address⟩ := sessions
        rw [State.submit, List.map_append] at distinct
        exact ⟨⟨running, (List.nodup_append.mp distinct).1, sessions⟩,
          fun _ => (of_fill_iff _ _).mp address⟩
      · rintro ⟨⟨looping, distinct, sessions⟩, good⟩
        refine ⟨looping, distinct_submit closed _ _ distinct, ?_⟩
        rw [clients, forall₂_submit_iff closed]
        exact ⟨sessions, rfl, (of_fill_iff _ _).mpr (good positive)⟩
  · rw [step_of_not_running running]
    exact ⟨fun serves => absurd serves.looping running,
      fun serves => absurd serves.1.looping running⟩

/-- Whatever `accept` does, round after round: the loop goes on and every client gets its session
exactly when `accept` has not failed, and the addresses of the clients have arrived. -/
theorem servesAll_iff (rounds : List Round) :
    ServesAll (serve rounds) rounds ↔ ∀ round ∈ rounds, round.Good := by
  induction rounds using List.reverseRecOn with
  | nil =>
    exact ⟨fun _ _ member => absurd member List.not_mem_nil,
      fun _ => ⟨rfl, List.nodup_nil, .nil⟩⟩
  | append_singleton rounds round inductionHypothesis =>
    rw [serve_concat, servesAll_step_iff (closed_serve rounds), inductionHypothesis]
    constructor
    · rintro ⟨before, last⟩ other member
      rcases List.mem_append.mp member with old | new
      · exact before other old
      · rwa [List.mem_singleton.mp new]
    · intro all
      exact ⟨fun other member => all other (List.mem_append_left _ member),
        all round (List.mem_append_right _ (List.mem_singleton_self _))⟩

/-- The first failure ends the loop. What has been submitted stays, nothing is added to it whatever
the calls would do that are not made any more, and only the promise knows of the exception. -/
theorem serve_failed {before : List Round} (served : (serve before).frame.point = .running)
    (uninitialised : Protocol) (errno : Nat) (after : List Round) :
    serve (before ++ ⟨uninitialised, .failed errno⟩ :: after) =
      (serve before).unhandledException (.logicError "Socket: accept() error!") := by
  have failed : (serve before).step ⟨uninitialised, .failed errno⟩ =
      (serve before).unhandledException (.logicError "Socket: accept() error!") :=
    step_of_running served
  rw [serve, List.foldl_append, List.foldl_cons]
  show after.foldl State.step ((serve before).step _) = _
  rw [failed]
  induction after with
  | nil => rfl
  | cons round after inductionHypothesis =>
    have ended : ((serve before).unhandledException
        (.logicError "Socket: accept() error!")).frame.point ≠ .running := fun same => by cases same
    rw [List.foldl_cons, step_of_not_running ended]
    exact inductionHypothesis

/-- `ECONNABORTED` on the first call. -/
def aborted : List Round := [⟨.ipv4, .failed 103⟩]

theorem not_servesAll_aborted : ¬ ∀ rounds, ServesAll (serve rounds) rounds := by
  intro always
  cases (always aborted).looping

end Server

end Sheep
