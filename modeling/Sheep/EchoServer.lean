/-
This file models the echo server of the examples: the session coroutine, run for
every connection that is accepted, with the descriptors of the process, the two
buffers of each connection, and the clients at the other ends. A session names its
connection to the kernel by the number of a descriptor, and the kernel looks up
the file of that number when it takes the operation.
-/

import Sheep.ConnectionBuffer
import Sheep.ConnectionDescriptors

namespace Sheep

namespace EchoServer

open Connections (Owner)

/-! ### Sessions and clients -/

/-- An operation that a session awaits: prepared for a descriptor, or taken by the kernel with the
file that the descriptor stood for then. -/
inductive Operation
  | prepared (fd : Int)
  | taken (file : Option Owner)
deriving DecidableEq, Repr

/-- Where the coroutine of a session is. -/
inductive Pc
  | created
  /-- At `co_await conn->recv()`. -/
  | receiving (operation : Operation)
  /-- At `co_await conn->send()`. -/
  | sending (operation : Operation)
  | finished
deriving DecidableEq, Repr

/-- Connections are numbered by the calls of `accept`, and so are their clients. -/
structure State where
  conns : Connections.State
  pc : Nat → Pc
  buffers : Nat → ConnectionBuffers.State
  /-- What the client of a connection has sent so far. -/
  sent : Nat → List Byte
  /-- How many bytes of it have been read. -/
  read : Nat → Nat
  /-- What the client has got. -/
  got : Nat → List Byte

inductive Action
  | accept (fd : Int)
  /-- A client sends. -/
  | arrive (k : Nat) (bytes : List Byte)
  /-- A worker resumes a session for the first time. -/
  | resume (k : Nat)
  /-- The kernel takes the operation of a session. -/
  | take (k : Nat)
  /-- The kernel completes a call of `recv`, and the session goes on. -/
  | receive (k : Nat) (result : Int) (data : List Byte)
  /-- The kernel completes a call of `send`, and the session goes on. -/
  | transmit (k : Nat) (result : Int)
  | destroyConnection (k : Nat)
  | destroySocket (k : Nat)
deriving DecidableEq, Repr

inductive Event
  | connection (event : Connections.Event)
  | memory (k : Nat) (event : ConnectionBuffers.Event)
deriving DecidableEq, Repr

def start (table : Int → Option Owner) (rubbish : Nat → ConnectionBuffers.Block → Nat → Byte) :
    State where
  conns := Connections.start table
  pc _ := .created
  buffers k := ConnectionBuffers.start (rubbish k)
  sent _ := []
  read _ := 0
  got _ := []

/-! ### The kernel -/

/-- `-EBADF`. -/
def badDescriptor : Int := -9

namespace State

/-- What a call of `recv` may deliver from a file: of a connection the bytes that come next. -/
def Delivers (s : State) (result : Int) (data : List Byte) : Option Owner → Prop
  | none => result = badDescriptor
  | some .other => True
  | some (.accepted j) => data <+: (s.sent j).drop (s.read j)

instance (s : State) (result : Int) (data : List Byte) (file : Option Owner) :
    Decidable (s.Delivers result data file) := by
  unfold Delivers
  split <;> infer_instance

/-- The bytes of a connection have been read. -/
def advance (s : State) (count : Nat) : Option Owner → State
  | some (.accepted j) => { s with read := Function.update s.read j (s.read j + count) }
  | _ => s

/-- Bytes go out on a file. -/
def deliver (s : State) (bytes : List Byte) : Option Owner → State
  | some (.accepted j) => { s with got := Function.update s.got j (s.got j ++ bytes) }
  | _ => s

/-- The coroutine of a session is somewhere else, with its buffers as they are now. -/
def setSession (s : State) (k : Nat) (pc : Pc) (buffers : ConnectionBuffers.State) : State :=
  { s with pc := Function.update s.pc k pc, buffers := Function.update s.buffers k buffers }

end State

/-- What a call of `send` may return: a negative error number, or the number of bytes that have
been sent. -/
def SendResult (len : Nat) (result : Int) : Option Owner → Prop
  | none => result = badDescriptor
  | some _ => -2 ^ 31 ≤ result ∧ result ≤ len

instance (len : Nat) (result : Int) (file : Option Owner) :
    Decidable (SendResult len result file) := by
  unfold SendResult
  split <;> infer_instance

/-! ### The session -/

/-- What a session does with its buffers once something has been received: it logs them, exchanges
them, and sends. -/
def reply : List ConnectionBuffers.Action := [.toString .read, .swap .write .read, .send 1]

/-- Go on after `recv`. -/
def afterRecv (bytes : Int) (fd : Int) (buffers : ConnectionBuffers.State) :
    Option (Pc × ConnectionBuffers.State × List ConnectionBuffers.Event) :=
  if bytes < 1 then some (.finished, buffers, [])
  else (Transitions.execute ConnectionBuffers.system buffers reply).map fun reached =>
    (.sending (.prepared fd), reached.1, reached.2)

/-- What happens to the descriptors. -/
def connect (s : State) (action : Connections.Action) : Option (State × List Event) :=
  (Connections.system s.conns action).map fun reached =>
    ({ s with conns := reached.1 }, reached.2.map .connection)

def system : Transitions.System State Action Event
  | s, .accept fd => connect s (.accept fd)
  | s, .arrive k bytes =>
      some ({ s with sent := Function.update s.sent k (s.sent k ++ bytes) }, [])
  | s, .resume k =>
      match s.pc k, s.conns.session k with
      | .created, .live connection =>
          (ConnectionBuffers.system (s.buffers k) (.recv 0)).map fun reached =>
            (s.setSession k (.receiving (.prepared connection.getFd)) reached.1,
              reached.2.map (.memory k))
      | _, _ => none
  | s, .take k =>
      match s.pc k with
      | .receiving (.prepared fd) =>
          some (s.setSession k (.receiving (.taken (s.conns.table fd))) (s.buffers k), [])
      | .sending (.prepared fd) =>
          some (s.setSession k (.sending (.taken (s.conns.table fd))) (s.buffers k), [])
      | _ => none
  | s, .receive k result data =>
      match s.pc k, s.conns.session k with
      | .receiving (.taken file), .live connection =>
          if s.Delivers result data file then
            match ConnectionBuffers.system (s.buffers k) (.received 0 result data) with
            | some (filled, received) =>
                (afterRecv result connection.getFd filled).map fun after =>
                  ((s.advance data.length file).setSession k after.1 after.2.1,
                    (received ++ after.2.2).map (.memory k))
            | none => none
          else none
      | _, _ => none
  | s, .transmit k result =>
      match s.pc k, (s.buffers k).calls 1 with
      | .sending (.taken file), some (.send buf len) =>
          if SendResult len result file then
            (ConnectionBuffers.system (s.buffers k) (.sent 1 result)).map fun reached =>
              ((s.deliver ((s.buffers k).memory.load buf result.toNat) file).setSession k
                .finished reached.1, reached.2.map (.memory k))
          else none
      | _, _ => none
  | s, .destroyConnection k =>
      if s.pc k = .finished then connect s (.destroyConnection k) else none
  | s, .destroySocket k => connect s (.destroySocket k)

end EchoServer

end Sheep
