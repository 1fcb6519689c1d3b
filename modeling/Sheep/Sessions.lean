/-
This file models the sessions of the server: the frames of their coroutines, each
with the Connection it owns, the workers that resume them, and the io_service that
each worker has. A handler does its input and output through its Connection.

The session queue delivers every session once, in any order, and `try_pop` may fail
at any time. A session counts for `empty()` from the moment its ticket is taken, and
can be popped when it has been written. The wait for the condition variable ends when
its predicate holds. An operation awaited by a session is an entry in the ring of the
io_service that its Connection points to, until the kernel completes it and the loop
of the worker comes to the completion. A coroutine list is ordered by the addresses of
the frames, so its sessions are tested in any order.
-/

import Mathlib.Logic.Function.Basic
import Sheep.Transitions

namespace Sheep

namespace Sessions

/-! ### States and events -/

/-- Where the coroutine of a session is suspended, if it does not run. -/
inductive Point
  | initial
  | running
  | suspended
  | final
deriving DecidableEq, Repr

/-- The frame of a session: its coroutine, and the `ios_` of the Connection it owns. -/
structure Frame (n : Nat) where
  point : Point
  ioService : Option (Fin n)
deriving DecidableEq, Repr

/-- Where a worker stands in `start_work_thread`, in `resume_coroutine` or in
`wait_io_and_resume_coroutine`. A session runs in its first resume or in a later one. -/
inductive WorkerPc
  | testStop
  | wait
  | tryPop
  | popped (session : Option Nat)
  | resume (session : Nat)
  | running (session : Nat) (first : Bool)
  | testDone (session : Nat)
  | testList
  | waitIo
  | loop
  | testCoros (rest : List Nat)
  | finished
deriving DecidableEq, Repr

/-- The state of the pool. A session is a number, which is never used again; a session whose handler
has returned no coroutine is `none` in the queue. The sessions of `arriving` have a ticket of the
queue and are not written yet. Of the entries of a ring, `pending` are those the kernel has not
completed, and `completed` the completions that have not been read. -/
structure State (n : Nat) where
  arriving : List (Option Nat)
  queue : List (Option Nat)
  submitted : Nat
  frames : Nat → Option (Frame n)
  coroList : Fin n → List Nat
  pending : Fin n → List Nat
  completed : Fin n → List Nat
  worker : Fin n → WorkerPc
  requestStop : Bool
  stopRequested : Fin n → Bool

/-- What can be seen of a run. Using a frame that does not exist, resuming one that is not suspended
and awaiting an operation without an io_service are undefined behaviour. -/
inductive Event (n : Nat)
  | submitted (session : Nat)
  | resumed (worker : Fin n) (session : Nat) (first : Bool)
  | awaited (session : Nat)
  | ended (session : Nat) (first : Bool)
  | destroyed (worker : Fin n) (session : Nat)
  | undefined (session : Nat)
deriving DecidableEq, Repr

/-- The session an event is about. -/
def Event.session {n : Nat} : Event n → Nat
  | .submitted session | .resumed _ session _ | .awaited session | .ended session _
  | .destroyed _ session | .undefined session => session

/-- What may happen next. The handler of a session that runs awaits an operation of its Connection,
or comes to its end. -/
inductive Action (n : Nat)
  | submit (hasCoro : Bool)
  | deliver (place : Nat)
  | work (worker : Fin n)
  | tryPop (worker : Fin n) (place : Option Nat)
  | awaitIo (worker : Fin n)
  | finish (worker : Fin n)
  | complete (worker : Fin n) (place : Nat)
  | testCoro (worker : Fin n) (place : Nat)
  | requestStop
  | stopThread (worker : Fin n)
deriving DecidableEq, Repr

variable {n : Nat}

/-- A pool that has just been started. -/
def start : State n where
  arriving := []
  queue := []
  submitted := 0
  frames _ := none
  coroList _ := []
  pending _ := []
  completed _ := []
  worker _ := .testStop
  requestStop := false
  stopRequested _ := false

/-! ### Steps -/

def State.setWorker (s : State n) (worker : Fin n) (pc : WorkerPc) : State n :=
  { s with worker := Function.update s.worker worker pc }

def State.setFrame (s : State n) (session : Nat) (frame : Option (Frame n)) : State n :=
  { s with frames := Function.update s.frames session frame }

def State.setCoroList (s : State n) (worker : Fin n) (list : List Nat) : State n :=
  { s with coroList := Function.update s.coroList worker list }

def State.setPending (s : State n) (worker : Fin n) (list : List Nat) : State n :=
  { s with pending := Function.update s.pending worker list }

def State.setCompleted (s : State n) (worker : Fin n) (list : List Nat) : State n :=
  { s with completed := Function.update s.completed worker list }

/-- A call of `submit` takes a ticket. The handler has made the frame of the session. -/
def State.submit (s : State n) : Bool → State n × List (Event n)
  | true =>
      ({ s.setFrame s.submitted (some ⟨.initial, none⟩) with
        arriving := s.arriving ++ [some s.submitted],
        submitted := s.submitted + 1 }, [.submitted s.submitted])
  | false => ({ s with arriving := s.arriving ++ [none] }, [])

/-- A worker resumes the coroutine of a session. -/
def State.resume (s : State n) (worker : Fin n) (session : Nat) (first : Bool) :
    State n × List (Event n) :=
  match s.frames session with
  | some ⟨.initial, ioService⟩ | some ⟨.suspended, ioService⟩ =>
      ((s.setFrame session (some ⟨.running, ioService⟩)).setWorker worker (.running session first),
        [.resumed worker session first])
  | _ => (s, [.undefined session])

/-- Where a worker goes on when the coroutine it has resumed comes back. -/
def returned (session : Nat) : Bool → WorkerPc
  | true => .testDone session
  | false => .loop

/-- `Connection::recv` or `send`: an entry of the ring that `ios_` points to. -/
def State.awaitIo (s : State n) (worker : Fin n) (session : Nat) (first : Bool) :
    State n × List (Event n) :=
  match s.frames session with
  | some ⟨_, some service⟩ =>
      (((s.setFrame session (some ⟨.suspended, some service⟩)).setPending service
        (s.pending service ++ [session])).setWorker worker (returned session first),
        [.awaited session])
  | _ => (s, [.undefined session])

/-- The coroutine comes to its final suspend point. -/
def State.finish (s : State n) (worker : Fin n) (session : Nat) (first : Bool) :
    State n × List (Event n) :=
  match s.frames session with
  | some ⟨_, ioService⟩ =>
      ((s.setFrame session (some ⟨.final, ioService⟩)).setWorker worker (returned session first),
        [.ended session first])
  | none => (s, [.undefined session])

/-- `if (!session.coro.done()) coro_list.insert(session.coro)`. -/
def State.testDone (s : State n) (worker : Fin n) (session : Nat) : State n × List (Event n) :=
  match s.frames session with
  | some ⟨.final, _⟩ => (s.setWorker worker .tryPop, [])
  | some _ =>
      ((s.setCoroList worker ((s.coroList worker).insert session)).setWorker worker .tryPop, [])
  | none => (s, [.undefined session])

/-- A round of the loop over the coroutine list. -/
def State.testCoro (s : State n) (worker : Fin n) (session : Nat) (rest : List Nat) :
    State n × List (Event n) :=
  match s.frames session with
  | some ⟨.final, _⟩ =>
      (((s.setFrame session none).setCoroList worker ((s.coroList worker).erase session)).setWorker
        worker (.testCoros rest), [.destroyed worker session])
  | some _ => (s.setWorker worker (.testCoros rest), [])
  | none => (s, [.undefined session])

/-- What a worker does by itself. -/
def State.work (s : State n) (worker : Fin n) : Option (State n × List (Event n)) :=
  match s.worker worker with
  | .testStop =>
      some (s.setWorker worker (if s.stopRequested worker then .finished else .wait), [])
  | .wait =>
      if s.arriving ≠ [] ∨ s.queue ≠ [] ∨ s.requestStop then some (s.setWorker worker .tryPop, [])
      else none
  | .popped none => some (s.setWorker worker .tryPop, [])
  | .popped (some session) =>
      -- `session.conn->set_io_service(&ios)`
      match s.frames session with
      | some ⟨point, _⟩ =>
          some ((s.setFrame session (some ⟨point, some worker⟩)).setWorker worker
            (.resume session), [])
      | none => some (s, [.undefined session])
  | .resume session => some (s.resume worker session true)
  | .testDone session => some (s.testDone worker session)
  | .testList =>
      some (s.setWorker worker (if s.coroList worker = [] then .testStop else .waitIo), [])
  | .waitIo => if s.completed worker = [] then none else some (s.setWorker worker .loop, [])
  | .loop =>
      match s.completed worker with
      | session :: rest => some ((s.setCompleted worker rest).resume worker session false)
      | [] => some (s.setWorker worker (.testCoros (s.coroList worker)), [])
  | .testCoros [] => some (s.setWorker worker .tryPop, [])
  | .tryPop | .running _ _ | .testCoros (_ :: _) | .finished => none

/-- The sessions under any number of workers. -/
def system : Transitions.System (State n) (Action n) (Event n)
  | s, .submit hasCoro => some (s.submit hasCoro)
  | s, .deliver place =>
      (s.arriving[place]?).map fun session =>
        ({ s with arriving := s.arriving.eraseIdx place, queue := s.queue ++ [session] }, [])
  | s, .work worker => s.work worker
  | s, .tryPop worker none =>
      if s.worker worker = .tryPop then some (s.setWorker worker .testList, []) else none
  | s, .tryPop worker (some place) =>
      if s.worker worker = .tryPop then
        (s.queue[place]?).map fun session =>
          ({ s with queue := s.queue.eraseIdx place }.setWorker worker (.popped session), [])
      else none
  | s, .awaitIo worker =>
      match s.worker worker with
      | .running session first => some (s.awaitIo worker session first)
      | _ => none
  | s, .finish worker =>
      match s.worker worker with
      | .running session first => some (s.finish worker session first)
      | _ => none
  | s, .complete worker place =>
      ((s.pending worker)[place]?).map fun session =>
        ((s.setPending worker ((s.pending worker).eraseIdx place)).setCompleted worker
          (s.completed worker ++ [session]), [])
  | s, .testCoro worker place =>
      match s.worker worker with
      | .testCoros rest =>
          (rest[place]?).map fun session => s.testCoro worker session (rest.eraseIdx place)
      | _ => none
  | s, .requestStop => some ({ s with requestStop := true }, [])
  | s, .stopThread worker =>
      some ({ s with stopRequested := Function.update s.stopRequested worker true }, [])

end Sessions

end Sheep
