/-
This file models what happens to the descriptors of accepted connections:
`Server::serve`, `Connection`, `Socket`, and the kernel's table of descriptors.
The two closes in the destruction of a `Connection` are steps of their own, so
that anything can happen between them on other threads.
-/

import Mathlib.Logic.Function.Basic
import Sheep.Transitions

namespace Sheep

namespace Connections

/-! ### Descriptors -/

/-- Whom an open descriptor belongs to: to something else in the process, or to the session of a
call of `accept`. Calls of `accept` are numbered. -/
inductive Owner
  | other
  | accepted (k : Nat)
deriving DecidableEq, Repr

/-- `Socket`. The descriptor -1 stands for none. -/
structure Socket where
  fd : Int
deriving DecidableEq, Repr

structure Connection where
  sock : Socket
deriving DecidableEq, Repr

def Connection.getFd (connection : Connection) : Int := connection.sock.fd

/-- What has become of what a call of `accept` returned. -/
inductive Session
  | absent
  | dropped
  | live (connection : Connection)
  /-- The body of `~Connection` has run, its members are still there. -/
  | bodyRun (connection : Connection)
  | destroyed
deriving DecidableEq, Repr

structure State where
  table : Int → Option Owner
  count : Nat
  session : Nat → Session

inductive Event
  | accepted (k : Nat) (fd : Int)
  /-- A call of `close` in the destruction of a connection, and whose descriptor it has closed. -/
  | closed (k : Nat) (fd : Int) (hit : Option Owner)
deriving DecidableEq, Repr

inductive Action
  | accept (fd : Int)
  | destroyConnection (k : Nat)
  | destroySocket (k : Nat)
deriving DecidableEq, Repr

/-! ### Steps -/

def start (table : Int → Option Owner) : State where
  table := table
  count := 0
  session _ := .absent

/-- What `Server::serve` makes of a descriptor. -/
def serve (client_fd : Int) : Session :=
  if client_fd < 1 then .dropped else .live ⟨⟨client_fd⟩⟩

namespace State

/-- `close` of a descriptor that is not open changes nothing. -/
def close (s : State) (fd : Int) : State :=
  { s with table := Function.update s.table fd none }

def setSession (s : State) (k : Nat) (session : Session) : State :=
  { s with session := Function.update s.session k session }

/-- `accept` returns a descriptor that is not in use. -/
def accept (s : State) (fd : Int) : State :=
  { s with
    table := Function.update s.table fd (some (.accepted s.count)),
    count := s.count + 1 }.setSession s.count (serve fd)

section SetSession

variable (s : State) (k : Nat) (session : Session)

@[simp] theorem setSession_table : (s.setSession k session).table = s.table := rfl

@[simp] theorem setSession_session_self : (s.setSession k session).session k = session :=
  Function.update_self ..

theorem setSession_session_other {other : Nat} (different : other ≠ k) :
    (s.setSession k session).session other = s.session other := Function.update_of_ne different ..

end SetSession

end State

/-- Connections are accepted, and sessions end, at any time. -/
def system : Transitions.System State Action Event
  | s, .accept fd =>
      if 0 ≤ fd ∧ s.table fd = none then some (s.accept fd, [.accepted s.count fd]) else none
  | s, .destroyConnection k =>
      match s.session k with
      | .live connection =>
          let fd := connection.getFd
          some ((s.close fd).setSession k (.bodyRun connection), [.closed k fd (s.table fd)])
      | _ => none
  | s, .destroySocket k =>
      match s.session k with
      | .bodyRun connection =>
          let fd := connection.sock.fd
          if fd ≠ -1 then
            some ((s.close fd).setSession k .destroyed, [.closed k fd (s.table fd)])
          else some (s.setSession k .destroyed, [])
      | _ => none

end Connections

end Sheep
