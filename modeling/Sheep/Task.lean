/-
This file models the coroutines of `task` and `io_service::run_task`, which executes
one of them. A frame has the promise of its coroutine and the point where it is
suspended. Control passes from frame to frame by the handles that the promises hold.

What the body of a coroutine does between two suspension points is an instruction
of a program. A task is awaited where it is created, and so is an operation of the
service, so that its completion finds the resume handle in the frame. Coroutines
share the variables that outlive them.
-/

import Mathlib.Logic.Function.Basic
import Sheep.DirectStyle

namespace Sheep

namespace Task

open DirectStyle (Outcome)

/-! ### Programs -/

/-- The type of the values. -/
structure ValueType (Value : Type) where
  /-- What is left in a variable that is moved from. -/
  moved : Value → Value
  /-- What is found where an object has been destroyed. -/
  stale : Value → Value

/-- The variables that outlive a coroutine: global ones, and those it has references to. -/
abbrev Store (Name Value : Type) := Name → Value

/-- The operand of `co_return`: a temporary or a variable of the coroutine itself, or a variable
that outlives it. -/
inductive Operand (Name Value : Type)
  | rvalue (value : Value)
  | constLvalue (name : Name)
  | lvalue (name : Name)

/-- What a coroutine does with the outcome of a task. Where the value is not used up at once, but
bound to a reference, it is read after the frame of the task has been destroyed. -/
structure Awaiting (Code Value Exception : Type) where
  byReference : Bool
  next : Outcome Value Exception → Code

/-- What a coroutine does next. Code that does not catch an exception goes on by throwing it. -/
inductive Instruction (Name Code Value Exception Request : Type)
  | coReturn (operand : Operand Name Value)
  | throw (exception : Exception)
  | io (request : Request) (next : Int → Code)
  | call (callee : Code) (awaiting : Awaiting Code Value Exception)

/-- Up to its next instruction a piece of code reads and writes variables. -/
abbrev Program (Name Code Value Exception Request : Type) :=
  Code → Store Name Value →
    Instruction Name Code Value Exception Request × Store Name Value

section Values

variable {Name Code Value Exception : Type} (type : ValueType Value)

def Operand.value (store : Store Name Value) : Operand Name Value → Value
  | .rvalue value => value
  | .constLvalue name => store name
  | .lvalue name => store name

/-- The template `return_value(U&&)` moves from a variable, unless it is `const`: then
`return_value(const T&)` is called. -/
def Operand.after [DecidableEq Name] (store : Store Name Value) :
    Operand Name Value → Store Name Value
  | .lvalue name => Function.update store name (type.moved (store name))
  | _ => store

/-- How the code goes on. -/
def Awaiting.onward (awaiting : Awaiting Code Value Exception) :
    Outcome Value Exception → Code
  | .value value =>
      awaiting.next (.value (if awaiting.byReference then type.stale value else value))
  | .exception exception => awaiting.next (.exception exception)

end Values

/-! ### Frames -/

/-- A coroutine handle: the address of a frame. -/
abbrev Handle := Nat

/-- `task_promise`. -/
structure Promise (Value Exception : Type) where
  continue_ : Option Handle
  exception_ : Option Exception
  value_ : Value

/-- Where a coroutine is suspended, if it does not run: at its start, where it awaits a task, where
it awaits an operation, with the `result` of the resume handle, or at its end. -/
inductive Point (Code Value Exception : Type)
  | initial (code : Code)
  | awaitTask (child : Handle) (awaiting : Awaiting Code Value Exception)
  | awaitIo (result : Int) (next : Int → Code)
  | running
  | final

structure Frame (Code Value Exception : Type) where
  promise : Promise Value Exception
  point : Point Code Value Exception

variable {Name Code Value Exception Request : Type}

/-- `task_promise::result`, which rethrows the exception if there is one. -/
def Promise.result (promise : Promise Value Exception) : Outcome Value Exception :=
  match promise.exception_ with
  | some exception => .exception exception
  | none => .value promise.value_

def Frame.setPoint (point : Point Code Value Exception) (frame : Frame Code Value Exception) :
    Frame Code Value Exception :=
  { frame with point := point }

def Frame.setContinue (handle : Handle) (frame : Frame Code Value Exception) :
    Frame Code Value Exception :=
  { frame with promise := { frame.promise with continue_ := some handle } }

def Frame.returnValue (value : Value) (frame : Frame Code Value Exception) :
    Frame Code Value Exception :=
  { frame with promise := { frame.promise with value_ := value } }

def Frame.unhandledException (exception : Exception) (frame : Frame Code Value Exception) :
    Frame Code Value Exception :=
  { frame with promise := { frame.promise with exception_ := some exception } }

/-- The event loop writes the result of an operation into the resume handle. -/
def Frame.setResult (result : Int) (frame : Frame Code Value Exception) :
    Frame Code Value Exception :=
  match frame.point with
  | .awaitIo _ next => { frame with point := .awaitIo result next }
  | _ => frame

/-! ### States and events -/

/-- What the thread executes: `run_task` before it resumes the task, a coroutine, the loop of
`run_task`, or the code behind `run_task`. Resuming a coroutine that does not exist or is not
suspended leads to undefined behaviour. -/
inductive Control (Code Value Exception : Type)
  | begin
  | running (handle : Handle) (code : Code)
  | runTask
  | finished (outcome : Outcome Value Exception)
  | undefined

/-- `pending` are the operations that are not completed, with the coroutines that await them. -/
structure State (Name Code Value Exception Request : Type) where
  store : Store Name Value
  frames : Handle → Option (Frame Code Value Exception)
  allocated : Nat
  pending : List (Request × Handle)
  control : Control Code Value Exception

/-- Who resumes a coroutine: `run_task` its own one, a coroutine the one it calls, a coroutine that
has come to its end the one that awaits it, or the loop of `run_task` the one whose operation is
completed. -/
inductive Waker
  | runTask
  | caller (handle : Handle)
  | task (handle : Handle)
  | io (handle : Handle)
deriving DecidableEq, Repr

inductive Event (Request : Type)
  | requested (request : Request)
  | completed (result : Int)
  | resumed (handle : Handle) (waker : Waker)

/-- The thread goes on, or an operation is completed. -/
inductive Action
  | run
  | complete (place : Nat) (result : Int)
deriving DecidableEq, Repr

/-! ### Steps -/

def State.modify (s : State Name Code Value Exception Request) (handle : Handle)
    (change : Frame Code Value Exception → Frame Code Value Exception) :
    State Name Code Value Exception Request :=
  { s with frames := Function.update s.frames handle ((s.frames handle).map change) }

def State.destroy (s : State Name Code Value Exception Request) (handle : Handle) :
    State Name Code Value Exception Request :=
  { s with frames := Function.update s.frames handle none }

section Resume

variable (type : ValueType Value)

/-- What a coroutine finds when it is resumed: the code it goes on with. The task that it has
awaited is a temporary, so that its frame is destroyed, while `await_resume` has only returned a
reference into it. -/
def State.awaitResume (s : State Name Code Value Exception Request) :
    Point Code Value Exception → Option (Code × State Name Code Value Exception Request)
  | .initial code => some (code, s)
  | .awaitTask child awaiting =>
      (s.frames child).map fun callee =>
        (awaiting.onward type callee.promise.result, s.destroy child)
  | .awaitIo result next => some (next result, s)
  | .running => none
  | .final => none

/-- `coroutine_handle::resume`. -/
def State.resume (s : State Name Code Value Exception Request) (handle : Handle)
    (waker : Waker) : State Name Code Value Exception Request × List (Event Request) :=
  match (s.frames handle).bind fun frame => s.awaitResume type frame.point with
  | some (code, after) =>
      ({ after.modify handle (Frame.setPoint .running) with control := .running handle code },
        [.resumed handle waker])
  | none => ({ s with control := .undefined }, [])

/-- `final_awaitable`: control passes to the coroutine that awaits this one. Where there is none, it
passes back to the one that has resumed a coroutine last, which is `run_task`. -/
def State.finalSuspend (s : State Name Code Value Exception Request) (handle : Handle) :
    State Name Code Value Exception Request × List (Event Request) :=
  let after := s.modify handle (Frame.setPoint .final)
  match (after.frames handle).bind fun frame => frame.promise.continue_ with
  | some caller => after.resume type caller (.task handle)
  | none => ({ after with control := .runTask }, [])

end Resume

section Step

variable [DecidableEq Name] [Inhabited Value] (type : ValueType Value)

/-- `co_return`. -/
def State.returnValue (s : State Name Code Value Exception Request) (handle : Handle)
    (operand : Operand Name Value) : State Name Code Value Exception Request :=
  { s.modify handle (Frame.returnValue (operand.value s.store)) with
    store := operand.after type s.store }

omit [DecidableEq Name] in
/-- A new frame, which is suspended at its start. -/
def State.create (s : State Name Code Value Exception Request) (callee : Code) :
    State Name Code Value Exception Request :=
  { s with
    frames := Function.update s.frames s.allocated (some ⟨⟨none, none, default⟩, .initial callee⟩),
    allocated := s.allocated + 1 }

/-- What a coroutine does. -/
def State.perform (s : State Name Code Value Exception Request) (handle : Handle) :
    Instruction Name Code Value Exception Request →
      State Name Code Value Exception Request × List (Event Request)
  | .coReturn operand => (s.returnValue type handle operand).finalSuspend type handle
  | .throw exception =>
      (s.modify handle (Frame.unhandledException exception)).finalSuspend type handle
  | .io request next =>
      ({ s.modify handle (Frame.setPoint (.awaitIo 0 next)) with
        pending := s.pending ++ [(request, handle)],
        control := .runTask }, [.requested request])
  | .call callee awaiting =>
      -- the task is not done, so `await_ready` is false
      let child := s.allocated
      let suspended := (s.create callee).modify handle (Frame.setPoint (.awaitTask child awaiting))
      (suspended.modify child (Frame.setContinue handle)).resume type child (.caller handle)

/-- A coroutine runs to its next instruction, and performs it. -/
def State.execute (s : State Name Code Value Exception Request) (handle : Handle)
    (ran : Instruction Name Code Value Exception Request × Store Name Value) :
    State Name Code Value Exception Request × List (Event Request) :=
  ({ s with store := ran.2 } : State Name Code Value Exception Request).perform type handle ran.1

/-- The frame of the task that `run_task` is called with. -/
def root : Handle := 0

def start (code : Code) (store : Store Name Value) :
    State Name Code Value Exception Request where
  store := store
  frames := Function.update (fun _ => none) root (some ⟨⟨none, none, default⟩, .initial code⟩)
  allocated := 1
  pending := []
  control := .begin

/-- `t.done()`: the result of the task, if it has come to its end. -/
def State.done (s : State Name Code Value Exception Request) :
    Option (Outcome Value Exception) :=
  match s.frames root with
  | some ⟨promise, .final⟩ => some promise.result
  | _ => none

/-- The loop of `run_task` over the completions, for one of them. -/
def State.complete (s : State Name Code Value Exception Request) (place : Nat) (result : Int) :
    Option (State Name Code Value Exception Request × List (Event Request)) :=
  (s.pending[place]?).map fun operation =>
    let after := { s with pending := s.pending.eraseIdx place }
    let stepped := (after.modify operation.2 (Frame.setResult result)).resume type operation.2
      (.io operation.2)
    (stepped.1, .completed result :: stepped.2)

def machine (program : Program Name Code Value Exception Request) :
    Transitions.System (State Name Code Value Exception Request) Action (Event Request)
  | s, .run =>
      match s.control with
      | .begin => some (s.resume type root .runTask)
      | .running handle code => some (s.execute type handle (program code s.store))
      | .runTask => s.done.map fun outcome => ({ s with control := .finished outcome }, [])
      | .finished _ => none
      | .undefined => none
  | s, .complete place result =>
      match s.control with
      | .runTask => s.complete type place result
      | _ => none

end Step

/-! ### As nested calls -/

section Calls

variable [DecidableEq Name] (type : ValueType Value)

/-- An outcome, with the variables as they are then. -/
def together (store : Store Name Value) :
    Outcome Value Exception →
      Outcome (Value × Store Name Value) (Exception × Store Name Value)
  | .value value => .value (value, store)
  | .exception exception => .exception (exception, store)

/-- What is done with the outcome of a call. -/
def Awaiting.asCall (awaiting : Awaiting Code Value Exception) :
    Outcome (Value × Store Name Value) (Exception × Store Name Value) →
      Code × Store Name Value
  | .value (value, store) => (awaiting.onward type (.value value), store)
  | .exception (exception, store) => (awaiting.onward type (.exception exception), store)

/-- What the instruction is in a program of nested calls. -/
def Instruction.asCall :
    Instruction Name Code Value Exception Request × Store Name Value →
      DirectStyle.Instruction (Code × Store Name Value) (Value × Store Name Value)
        (Exception × Store Name Value) Request Int
  | (.coReturn operand, store) =>
      .ret (operand.value store, operand.after type store)
  | (.throw exception, store) => .throw (exception, store)
  | (.io request next, store) => .io request fun result => (next result, store)
  | (.call callee awaiting, store) => .call (callee, store) (awaiting.asCall type)

/-- The program as nested calls, whose values are of another type, perhaps. -/
def callsOf (program : Program Name Code Value Exception Request) :
    DirectStyle.Program (Code × Store Name Value) (Value × Store Name Value)
      (Exception × Store Name Value) Request Int :=
  fun called => Instruction.asCall type (program called.1 called.2)

/-- With ordinary calls. `return` copies a variable that outlives the call, and a temporary that is
bound to a reference lives on. -/
def ordinary : ValueType Value where
  moved value := value
  stale value := value

end Calls

end Task

end Sheep
