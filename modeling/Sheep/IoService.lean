/-
This file models `io_service` under a single-threaded program: awaitables that are
created, coroutines that await them, and the rounds of the event loop. The kernel
consumes the submitted entries in order and completes each of them once, in any
order.

The k-th awaitable that is created prepares the k-th operation, in the entry k
modulo the size of the ring. What `io_uring_prep_*` leaves of the user data of an
entry is not the same in all versions of the library. It is a parameter here.
-/

import Mathlib.Logic.Function.Basic
import Sheep.Transitions

namespace Sheep

namespace IoService

/-! ### States and events -/

/-- A submission entry: the operation that is prepared in it, and its user data, which is the
address of a `resume_handle` or null. -/
structure Sqe (Address : Type) where
  operation : Nat
  userData : Option Address
deriving DecidableEq, Repr

/-- A completion, with the operation it is of. -/
structure Cqe (Address : Type) where
  sqe : Sqe Address
  res : Int
deriving DecidableEq, Repr

/-- Where a call of `wait_io_and_resume_coroutine`, or a round of `run_task`, stands: in
`io_uring_submit_and_wait`, or in the loop over the completions with its `head` and `cqe_num`. -/
inductive Round
  | waiting
  | loop (head cqeNum : Nat)
deriving DecidableEq, Repr

/-- The state of a ring and of the program that uses it. `cqes` are all completions that have been
posted, of which the first `khead` have left the queue. `handles` are the resume handles of the
coroutines that are suspended, each with its awaitable. `rounds` are the rounds that are at work,
the innermost one first. -/
structure State (Address Coroutine : Type) where
  sqes : Nat → Sqe Address
  sqeHead : Nat
  sqeTail : Nat
  inFlight : List (Sqe Address)
  cqes : List (Cqe Address)
  khead : Nat
  awaited : List Nat
  handles : Address → Option (Nat × Coroutine)
  suspended : Coroutine → Bool
  rounds : List Round

inductive Event (Address Coroutine : Type)
  | created (operation : Nat)
  | awaited (awaitable : Nat) (coroutine : Coroutine)
  | completed (operation : Nat) (res : Int)
  | resumed (awaitable : Nat) (coroutine : Coroutine) (res : Int)
  -- the resume handle of the completion does not exist any more
  | dangling (address : Address)
deriving DecidableEq, Repr

/-- What the program and the kernel may do. A coroutine comes with the address of the resume handle
in its frame. -/
inductive Action (Address Coroutine : Type)
  | create
  | coAwait (awaitable : Nat) (coroutine : Coroutine) (address : Address)
  | submitAndWait
  | wake
  | next
  | complete (place : Nat) (res : Int)

variable {Address Coroutine : Type}

/-- A service that has been initialised. -/
def start : State Address Coroutine where
  sqes _ := ⟨0, none⟩
  sqeHead := 0
  sqeTail := 0
  inFlight := []
  cqes := []
  khead := 0
  awaited := []
  handles _ := none
  suspended _ := false
  rounds := []

/-! ### Steps -/

/-- Is the thread blocked in `io_uring_submit_and_wait`? -/
def State.blocked (s : State Address Coroutine) : Bool :=
  s.rounds.head? = some .waiting

section Ring

variable (entries : Nat)

/-- The entries that are not submitted yet. -/
def State.ring (s : State Address Coroutine) : List (Sqe Address) :=
  (List.range' s.sqeHead (s.sqeTail - s.sqeHead)).map fun ticket => s.sqes (ticket % entries)

/-- `io_uring_submit`: the kernel consumes all entries. -/
def State.submit (s : State Address Coroutine) : State Address Coroutine :=
  { s with inFlight := s.inFlight ++ s.ring entries, sqeHead := s.sqeTail }

/-- `get_sqe`, which makes room if there is none. -/
def State.getSqe (s : State Address Coroutine) : State Address Coroutine :=
  if s.sqeTail - s.sqeHead < entries then s else s.submit entries

/-- One of the functions that create an awaitable: it takes an entry and prepares it. -/
def State.create (s : State Address Coroutine) (prep : Option Address → Option Address) :
    State Address Coroutine :=
  let after := s.getSqe entries
  let slot := after.sqeTail % entries
  { after with
    sqes := Function.update after.sqes slot ⟨after.sqeTail, prep (after.sqes slot).userData⟩,
    sqeTail := after.sqeTail + 1 }

variable [DecidableEq Address] [DecidableEq Coroutine]

/-- `await_suspend`: the entry of the awaitable gets the address of the resume handle. -/
def State.coAwait (s : State Address Coroutine) (awaitable : Nat) (coroutine : Coroutine)
    (address : Address) : State Address Coroutine :=
  let slot := awaitable % entries
  { s with
    sqes := Function.update s.sqes slot { s.sqes slot with userData := some address },
    awaited := awaitable :: s.awaited,
    handles := Function.update s.handles address (some (awaitable, coroutine)),
    suspended := Function.update s.suspended coroutine true }

/-- `resume_handler->resume(cqe->res)`, if there is a handler. -/
def State.resume (s : State Address Coroutine) (cqe : Cqe Address) :
    State Address Coroutine × List (Event Address Coroutine) :=
  match cqe.sqe.userData with
  | none => (s, [])
  | some address =>
      match s.handles address with
      | none => (s, [.dangling address])
      | some (awaitable, coroutine) =>
          ({ s with
            handles := Function.update s.handles address none,
            suspended := Function.update s.suspended coroutine false },
            [.resumed awaitable coroutine cqe.res])

/-- The loop of a round: the next completion, or the end of the loop and `io_uring_cq_advance`. -/
def State.next (s : State Address Coroutine) :
    Option (State Address Coroutine × List (Event Address Coroutine)) :=
  match s.rounds with
  | .loop head cqeNum :: rest =>
      match s.cqes[head]? with
      | some cqe =>
          some (State.resume { s with rounds := .loop (head + 1) (cqeNum + 1) :: rest } cqe)
      | none => some ({ s with khead := s.khead + cqeNum, rounds := rest }, [])
  | _ => none

/-- The service under a program that awaits each awaitable at most once. A coroutine that is
suspended does not run, and two resume handles are not at one address. -/
def system (prep : Option Address → Option Address) :
    Transitions.System (State Address Coroutine) (Action Address Coroutine)
      (Event Address Coroutine)
  | s, .create =>
      if s.blocked then none
      else some (s.create entries prep, [.created s.sqeTail])
  | s, .coAwait awaitable coroutine address =>
      if s.blocked = false ∧ awaitable < s.sqeTail ∧ awaitable ∉ s.awaited ∧
          s.suspended coroutine = false ∧ s.handles address = none then
        some (s.coAwait entries awaitable coroutine address, [.awaited awaitable coroutine])
      else none
  | s, .submitAndWait =>
      if s.blocked then none
      else some ({ s.submit entries with rounds := .waiting :: s.rounds }, [])
  | s, .wake =>
      match s.rounds with
      | .waiting :: rest =>
          if s.khead < s.cqes.length then
            some ({ s with rounds := .loop s.khead 0 :: rest }, [])
          else none
      | _ => none
  | s, .next => s.next
  | s, .complete place res =>
      match s.inFlight[place]? with
      | some sqe =>
          some ({ s with inFlight := s.inFlight.eraseIdx place, cqes := s.cqes ++ [⟨sqe, res⟩] },
            [.completed sqe.operation res])
      | none => none

end Ring

end IoService

end Sheep
