/-
This file models `thread_pool`: its workers, the calls of `submit`, and
`stop_work_thread`. The session queue is the `MPMCQueue` of this development, its
threads are the workers and the submitters, and each of its atomic steps is a
step here.

`wait` evaluates its predicate while it holds `idle_mutex_`: it loads `head_`,
then `tail_`, then `request_stop_`. Releasing the mutex and falling asleep are
one step. A notification wakes only workers that are asleep already; a woken
worker takes the mutex and evaluates the predicate again.
-/

import Sheep.Queue

namespace Sheep

namespace ThreadPool

/-! ### States -/

/-- `session_wrapper`: a coroutine handle and a pointer to its connection, either may be null. -/
structure SessionWrapper (Coro Conn : Type) where
  coro : Option Coro
  conn : Option Conn

/-- The threads that use the session queue: workers and submitters. -/
abbrev Agent (n : Nat) (Submitter : Type) := Fin n ⊕ Submitter

/-- Where a worker stands in `start_work_thread` and `resume_coroutine`. -/
inductive WorkerPc (Coro Conn : Type)
  | testStop
  | lock
  | loadHead
  | loadTail (head : UInt64)
  | loadStop
  | sleep
  | asleep
  | woken
  | unlock
  | tryPop (session : SessionWrapper Coro Conn)
  | popping (session : SessionWrapper Coro Conn)
  | setIoService (session : SessionWrapper Coro Conn)
  | resume (session : SessionWrapper Coro Conn) (coro : Coro)
  | testList
  | waitIo
  | erase
  | finished

def WorkerPc.isAsleep {Coro Conn : Type} : WorkerPc Coro Conn → Bool
  | .asleep => true
  | _ => false

/-- What a notification of all makes of a worker. -/
def WorkerPc.notified {Coro Conn : Type} : WorkerPc Coro Conn → WorkerPc Coro Conn
  | .asleep => .woken
  | pc => pc

/-- Where a call of `submit` stands. -/
inductive SubmitPc
  | idle
  | emplace
  | notifyOne
deriving DecidableEq, Repr

/-- Where `stop_work_thread` stands. -/
inductive StopPc
  | notCalled
  | requestStop (i : Nat)
  | notifyAll
  | join (i : Nat)
  | returned
deriving DecidableEq, Repr

structure State (n : Nat) (Submitter Coro Conn : Type) where
  sessionQueue : MPMCQueue.State (Agent n Submitter) (SessionWrapper Coro Conn)
  idleMutex : Option (Fin n)
  requestStop : Bool
  stopRequested : Fin n → Bool
  coroList : Fin n → List Coro
  done : Coro → Bool
  ioService : Conn → Option (Fin n)
  worker : Fin n → WorkerPc Coro Conn
  submitter : Submitter → SubmitPc
  stopper : StopPc

/-- What can be seen of a run. -/
inductive Event (n : Nat) (Submitter Coro Conn : Type)
  | queue (event : MPMCQueue.Event (Agent n Submitter) (SessionWrapper Coro Conn))
  | resumed (worker : Fin n) (coro : Coro)
  | destroyed (worker : Fin n) (coro : Coro)

/-- What may happen next. Which coroutines come to their end when a worker resumes them, and whom a
notification wakes, is not decided by the pool. -/
inductive Action (n : Nat) (Submitter Coro Conn : Type)
  | work (worker : Fin n) (ends : Coro → Bool)
  | wake (worker : Fin n)
  | submit (submitter : Submitter) (session : SessionWrapper Coro Conn)
  | emplace (submitter : Submitter)
  | notifyOne (submitter : Submitter) (woken : Option (Fin n))
  | stop
  | requestStop
  | notifyAll
  | join

section Step

variable {n : Nat} {Submitter Coro Conn : Type}

/-- `session_queue_(1024)`. -/
def queueCapacity : MPMCQueue.Capacity := ⟨1024, 10, by decide, rfl⟩

/-- A pool that has just been started. -/
def start (bytes : UInt64 → SessionWrapper Coro Conn) : State n Submitter Coro Conn where
  sessionQueue := MPMCQueue.start bytes
  idleMutex := none
  requestStop := false
  stopRequested _ := false
  coroList _ := []
  done _ := false
  ioService _ := none
  worker _ := .testStop
  submitter _ := .idle
  stopper := .notCalled

namespace State

def setWorker (s : State n Submitter Coro Conn) (worker : Fin n) (pc : WorkerPc Coro Conn) :
    State n Submitter Coro Conn :=
  { s with worker := Function.update s.worker worker pc }

section SetWorker

variable (s : State n Submitter Coro Conn) (worker : Fin n) (pc : WorkerPc Coro Conn)

@[simp] theorem setWorker_worker_self : (s.setWorker worker pc).worker worker = pc :=
  Function.update_self ..

theorem setWorker_worker_other {other : Fin n} (different : other ≠ worker) :
    (s.setWorker worker pc).worker other = s.worker other :=
  Function.update_of_ne different ..

end SetWorker

variable [DecidableEq Submitter]

def setSubmitter (s : State n Submitter Coro Conn) (submitter : Submitter) (pc : SubmitPc) :
    State n Submitter Coro Conn :=
  { s with submitter := Function.update s.submitter submitter pc }

variable (s : State n Submitter Coro Conn) (submitter : Submitter) (pc : SubmitPc)

@[simp] theorem setSubmitter_submitter_self :
    (s.setSubmitter submitter pc).submitter submitter = pc := Function.update_self ..

theorem setSubmitter_submitter_other {other : Submitter} (different : other ≠ submitter) :
    (s.setSubmitter submitter pc).submitter other = s.submitter other :=
  Function.update_of_ne different ..

end State

/-- The session that `try_pop` has moved into the local variable. -/
def received (session : SessionWrapper Coro Conn) :
    List (MPMCQueue.Event (Agent n Submitter) (SessionWrapper Coro Conn)) →
      SessionWrapper Coro Conn
  | [] => session
  | .read _ _ popped :: events => received popped events
  | _ :: events => received session events

/-- After a step of `try_pop`: it has returned true or false, or goes on. -/
def afterPop (session : SessionWrapper Coro Conn) :
    Option MPMCQueue.Returned → WorkerPc Coro Conn
  | none => .popping session
  | some (.bool true) => .setIoService session
  | some _ => .testList

section Coroutines

variable [DecidableEq Coro] (s : State n Submitter Coro Conn) (worker : Fin n)

/-- `conn->set_io_service`. -/
def State.setIoService [DecidableEq Conn] (conn : Conn) : State n Submitter Coro Conn :=
  { s with ioService := Function.update s.ioService conn (some worker) }

/-- A coroutine that comes to its end while it is resumed. -/
def State.endCoro (coro : Coro) : State n Submitter Coro Conn :=
  { s with done := Function.update s.done coro true }

/-- `coro_list.insert`. -/
def State.insertCoro (coro : Coro) : State n Submitter Coro Conn :=
  { s with coroList := Function.update s.coroList worker ((s.coroList worker).insert coro) }

/-- `wait_io_and_resume_coroutine`: of the coroutines in the list, some come to their end. -/
def State.resumeReady (ends : Coro → Bool) : State n Submitter Coro Conn :=
  { s with done := fun coro => s.done coro || (s.coroList worker).contains coro && ends coro }

/-- The coroutines of a worker that are not done. -/
def State.pending : List Coro := (s.coroList worker).filter fun coro => !s.done coro

/-- The loop that erases the coroutines that are done. -/
def State.eraseDone : State n Submitter Coro Conn :=
  { s with coroList := Function.update s.coroList worker (s.pending worker) }

end Coroutines

/-- `request_stop` on the thread of a worker. -/
def State.askToStop (s : State n Submitter Coro Conn) (worker : Fin n) :
    State n Submitter Coro Conn :=
  { s with stopRequested := Function.update s.stopRequested worker true }

/-- `notify_all`. -/
def State.wakeAll (s : State n Submitter Coro Conn) : State n Submitter Coro Conn :=
  { s with worker := fun worker => (s.worker worker).notified }

/-- Take the mutex if it is free. -/
def State.lock (s : State n Submitter Coro Conn) (worker : Fin n) :
    Option (State n Submitter Coro Conn × List (Event n Submitter Coro Conn)) :=
  match s.idleMutex with
  | none => some ({ s with idleMutex := some worker }.setWorker worker .loadHead, [])
  | some _ => none

variable [DecidableEq Submitter] [DecidableEq Coro] [DecidableEq Conn]

/-- One step of a worker. -/
def advance (s : State n Submitter Coro Conn) (worker : Fin n) (ends : Coro → Bool) :
    WorkerPc Coro Conn →
      Option (State n Submitter Coro Conn × List (Event n Submitter Coro Conn))
  | .testStop =>
      if s.stopRequested worker then some (s.setWorker worker .finished, [])
      else some (s.setWorker worker .lock, [])
  | .lock => s.lock worker
  | .loadHead => some (s.setWorker worker (.loadTail s.sessionQueue.head), [])
  | .loadTail head =>
      -- `!session_queue_.empty()`
      if head - s.sessionQueue.tail ≠ 0 then some (s.setWorker worker .unlock, [])
      else some (s.setWorker worker .loadStop, [])
  | .loadStop =>
      if s.requestStop then some (s.setWorker worker .unlock, [])
      else some (s.setWorker worker .sleep, [])
  | .sleep => some ({ s with idleMutex := none }.setWorker worker .asleep, [])
  | .asleep => none
  | .woken => s.lock worker
  | .unlock => some ({ s with idleMutex := none }.setWorker worker (.tryPop ⟨none, none⟩), [])
  | .tryPop session =>
      (MPMCQueue.system queueCapacity id s.sessionQueue (.call (.inl worker) .tryPop)).map
        fun stepped => ({ s with sessionQueue := stepped.1 }.setWorker worker (.popping session),
          stepped.2.map .queue)
  | .popping session =>
      (MPMCQueue.system queueCapacity id s.sessionQueue (.step (.inl worker))).map fun stepped =>
        ({ s with sessionQueue := stepped.1 }.setWorker worker
          (afterPop (received session stepped.2) (MPMCQueue.returned stepped.2)),
          stepped.2.map .queue)
  | .setIoService session =>
      match session.coro with
      | none => some (s.setWorker worker (.tryPop session), [])
      | some coro =>
          some ((session.conn.elim s (s.setIoService worker)).setWorker worker
            (.resume session coro), [])
  | .resume session coro =>
      let after := if ends coro then s.endCoro coro else s.insertCoro worker coro
      some (after.setWorker worker (.tryPop session), [.resumed worker coro])
  | .testList =>
      if s.coroList worker = [] then some (s.setWorker worker .testStop, [])
      else some (s.setWorker worker .waitIo, [])
  | .waitIo => some ((s.resumeReady worker ends).setWorker worker .erase, [])
  | .erase =>
      some ((s.eraseDone worker).setWorker worker (.tryPop ⟨none, none⟩),
        ((s.coroList worker).filter s.done).map (.destroyed worker))
  | .finished => none

/-- The thread pool with `n` workers, under any number of calls of `submit`, from any threads, and
one call of `stop_work_thread`. -/
def system : Transitions.System (State n Submitter Coro Conn) (Action n Submitter Coro Conn)
    (Event n Submitter Coro Conn)
  | s, .work worker ends => advance s worker ends (s.worker worker)
  | s, .wake worker =>
      match s.worker worker with
      | .asleep => some (s.setWorker worker .woken, [])
      | _ => none
  | s, .submit submitter session =>
      if s.submitter submitter = .idle then
        (MPMCQueue.system queueCapacity id s.sessionQueue
          (.call (.inr submitter) (.emplace session))).map fun stepped =>
            ({ s with sessionQueue := stepped.1 }.setSubmitter submitter .emplace,
              stepped.2.map .queue)
      else none
  | s, .emplace submitter =>
      if s.submitter submitter = .emplace then
        (MPMCQueue.system queueCapacity id s.sessionQueue (.step (.inr submitter))).map
          fun stepped =>
            ({ s with sessionQueue := stepped.1 }.setSubmitter submitter
              (if (MPMCQueue.returned stepped.2).isSome then .notifyOne else .emplace),
              stepped.2.map .queue)
      else none
  | s, .notifyOne submitter (some worker) =>
      if s.submitter submitter = .notifyOne then
        match s.worker worker with
        | .asleep => some ((s.setWorker worker .woken).setSubmitter submitter .idle, [])
        | _ => none
      else none
  | s, .notifyOne submitter none =>
      -- nobody is asleep
      if s.submitter submitter = .notifyOne ∧ ∀ worker, ¬ (s.worker worker).isAsleep then
        some (s.setSubmitter submitter .idle, [])
      else none
  | s, .stop =>
      if s.stopper = .notCalled then
        some ({ s with requestStop := true, stopper := .requestStop 0 }, [])
      else none
  | s, .requestStop =>
      match s.stopper with
      | .requestStop i =>
          if below : i < n then
            some ({ s.askToStop ⟨i, below⟩ with stopper := .requestStop (i + 1) }, [])
          else some ({ s with stopper := .notifyAll }, [])
      | _ => none
  | s, .notifyAll =>
      if s.stopper = .notifyAll then some ({ s.wakeAll with stopper := .join 0 }, [])
      else none
  | s, .join =>
      match s.stopper with
      | .join i =>
          if below : i < n then
            match s.worker ⟨i, below⟩ with
            | .finished => some ({ s with stopper := .join (i + 1) }, [])
            | _ => none
          else some ({ s with stopper := .returned }, [])
      | _ => none

end Step

end ThreadPool

end Sheep
