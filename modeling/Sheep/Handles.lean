/-
This file models the types whose objects own something: `Socket`, `Buffer`, `task`,
`sync_wait_task` and `io_service`. Objects are constructed, moved, assigned and
destroyed in any order, and may be assigned to themselves. What differs is the
assignment, and with it what it takes that everything is released once.
-/

import Sheep.Connection
import Sheep.ConnectionBuffer
import Sheep.Ownership

namespace Sheep

namespace Handles

open Ownership

variable {Name : Type} [DecidableEq Name]

/-- What is both released and kept is there twice. -/
theorem twice_iff {Resource : Type} {one : Option Resource} :
    one.toList.Perm (one.toList ++ one.toList) ↔ one = none := by
  cases one with
  | none => exact iff_of_true .rfl rfl
  | some resource =>
    refine iff_of_false (fun perm => ?_) (Option.some_ne_none _)
    have same : 1 = 2 := perm.length_eq
    omega

/-! ### `Socket` -/

namespace Socket

open Connections (Socket)

/-- A descriptor, unless it is -1. -/
def held (socket : Socket) : Option Int := if socket.fd ≠ -1 then some socket.fd else none

inductive Op (Name : Type)
  /-- `Socket()` is the same with -1. -/
  | construct (name : Name) (fd : Int)
  | moveConstruct (name other : Name)
  | moveAssign (name rhs : Name)
  | destroy (name : Name)
  /-- What `bind` and `connect` begin with, and what `::socket` returns there. -/
  | createSocket (name : Name) (fd : Int)
  /-- With what `::accept` returns. -/
  | accept (name : Name) (client_fd : Int)
deriving DecidableEq, Repr

def touched : Op Name → List Name
  | .construct name _ | .destroy name | .createSocket name _ | .accept name _ => [name]
  | .moveConstruct name other | .moveAssign name other => [name, other]

/-- The old descriptor is closed before that of the other socket is taken. -/
def assign (socket rhs : Socket) : (Socket × Socket) × List Int :=
  ((⟨rhs.fd⟩, ⟨-1⟩), (held socket).toList)

def createSocket (place : Name → Option Socket) (name : Name) (fd : Int) :
    Option (Effect Name Socket Int) :=
  match place name with
  | some socket =>
      if socket.fd = -1 then
        some { place := Function.update place name (some ⟨fd⟩), opened := held ⟨fd⟩ }
      else some { place := place }
  | none => none

/-- The caller of `accept` gets the descriptor. -/
def accept (place : Name → Option Socket) (name : Name) (client_fd : Int) :
    Option (Effect Name Socket Int) :=
  match place name with
  | some socket =>
      if socket.fd ≠ -1 ∧ client_fd ≠ -1 then
        some { place := place, opened := some client_fd, given := some client_fd }
      else none
  | none => none

def perform : Op Name → (Name → Option Socket) → Option (Effect Name Socket Int)
  | .construct name fd, place => Ownership.construct place name ⟨fd⟩ none (held ⟨fd⟩)
  | .moveConstruct name other, place =>
      Ownership.moveConstruct place name other fun source => (⟨source.fd⟩, ⟨-1⟩)
  | .moveAssign name rhs, place => Ownership.moveAssign place name rhs assign
  | .destroy name, place => Ownership.destroy place name fun socket => (held socket).toList
  | .createSocket name fd, place => createSocket place name fd
  | .accept name client_fd, place => accept place name client_fd

/-- A socket that has a descriptor is not assigned to itself. -/
def careful : Op Name → (Name → Option Socket) → Prop
  | .moveAssign name rhs, place => name = rhs → (place name).bind held = none
  | _, _ => True

variable {op : Op Name} {place : Name → Option Socket} {effect : Effect Name Socket Int}

theorem frame {name : Name} (performed : perform op place = some effect)
    (apart : name ∉ touched op) : effect.place name = place name := by
  cases op with
  | construct | destroy => first
    | exact construct_frame performed apart
    | exact destroy_frame performed apart
  | moveConstruct => exact moveConstruct_frame performed apart
  | moveAssign => exact moveAssign_frame performed apart
  | createSocket =>
    rw [perform, createSocket] at performed
    split at performed
    · split at performed
      · cases performed
        exact Function.update_of_ne (List.ne_of_not_mem_cons apart) ..
      · cases performed
        rfl
    · cases performed
  | accept =>
    rw [perform, accept] at performed
    split at performed
    · split at performed
      · cases performed
        rfl
      · cases performed
    · cases performed

theorem balanced_iff (performed : perform op place = some effect) :
    effect.Balanced held (touched op).dedup place ↔ careful op place := by
  cases op with
  | construct name fd => exact (construct_balanced performed).trans (iff_of_true .rfl trivial)
  | moveConstruct name other =>
    exact iff_of_true (moveConstruct_balanced (fun _ => rfl) (fun _ => rfl) performed) trivial
  | moveAssign name rhs =>
    obtain ⟨socket, source, present, present', _⟩ := moveAssign_present performed
    by_cases same : name = rhs
    · subst same
      rw [touched, moveAssign_self_balanced present performed]
      show (held socket).toList.Perm ((held socket).toList ++ (held socket).toList) ↔
        (name = name → (place name).bind held = none)
      rw [present]
      exact twice_iff.trans ⟨fun empty _ => empty, fun empty => empty rfl⟩
    · rw [touched, moveAssign_balanced same present present' performed]
      refine iff_of_true ?_ fun same' => (same same').elim
      show ((held socket).toList ++ (held source).toList).Perm
        ((held socket).toList ++ ((held source).toList ++ []))
      rw [List.append_nil]
  | destroy name => exact iff_of_true (destroy_balanced (fun _ => rfl) performed) trivial
  | createSocket name fd =>
    rw [perform, createSocket] at performed
    split at performed
    · rename_i socket present
      split at performed
      · rename_i unset
        cases performed
        refine balanced_one.trans (iff_of_true ?_ trivial)
        simp [present, held, unset]
      · cases performed
        refine balanced_one.trans (iff_of_true ?_ trivial)
        simp
    · cases performed
  | accept name client_fd =>
    rw [perform, accept] at performed
    split at performed
    · split at performed
      · cases performed
        refine balanced_one.trans (iff_of_true ?_ trivial)
        rw [Option.toList_none, List.append_nil, List.nil_append]
        exact List.perm_append_comm
      · cases performed
    · cases performed

theorem grounded {resource : Int} (performed : perform op place = some effect)
    (left : resource ∈ effect.released ++ effect.given.toList ++
      holdings held (touched op).dedup effect.place) :
    resource ∈ holdings held (touched op).dedup place ++ effect.opened.toList ++
      effect.taken.toList := by
  cases op with
  | moveAssign name rhs =>
    refine moveAssign_grounded (fun socket source => ?_) performed left
    rintro (released | holds | nothing)
    · exact .inl (Option.mem_toList.mp released)
    · exact .inr holds
    · cases nothing
  | _ => exact ((balanced_iff performed).mpr trivial).grounded left

def interface : Interface Name (Op Name) Socket Int where
  held := held
  touched := touched
  perform := perform
  frame := frame
  grounded := grounded

end Socket

/-! ### `Buffer` -/

namespace Buffer

open ConnectionBuffers (Block Buffer)

inductive Op (Name : Type)
  /-- With what `malloc` returns. -/
  | construct (name : Name) (capacity : Nat) (buf : Option Block)
  | moveConstruct (name other : Name)
  | moveAssign (name other : Name)
  | swap (a b : Name)
  | destroy (name : Name)
deriving DecidableEq, Repr

def touched : Op Name → List Name
  | .construct name _ _ | .destroy name => [name]
  | .moveConstruct name other | .moveAssign name other | .swap name other => [name, other]

def exchange (a b : Buffer) : (Buffer × Buffer) × List Block := ((b, a), [])

def perform : Op Name → (Name → Option Buffer) → Option (Effect Name Buffer Block)
  | .construct name capacity buf, place =>
      Ownership.construct place name ⟨buf, 0, capacity⟩ buf none
  | .moveConstruct name other, place =>
      Ownership.moveConstruct place name other fun source => (source, ⟨none, 0, 0⟩)
  | .moveAssign name other, place => guardedAssign place name other exchange
  | .swap a b, place => Ownership.moveAssign place a b exchange
  | .destroy name, place => Ownership.destroy place name fun buffer => buffer.buf.toList

variable {op : Op Name} {place : Name → Option Buffer} {effect : Effect Name Buffer Block}

theorem frame {name : Name} (performed : perform op place = some effect)
    (apart : name ∉ touched op) : effect.place name = place name := by
  cases op with
  | construct => exact construct_frame performed apart
  | moveConstruct => exact moveConstruct_frame performed apart
  | moveAssign => exact guardedAssign_frame performed apart
  | swap => exact moveAssign_frame performed apart
  | destroy => exact destroy_frame performed apart

theorem exchange_balanced {a b : Name} (performed : Ownership.moveAssign place a b exchange =
    some effect) : effect.Balanced Buffer.buf [a, b].dedup place := by
  obtain ⟨buffer, other, present, present', _⟩ := moveAssign_present performed
  by_cases same : a = b
  · subst same
    cases present.symm.trans present'
    exact (moveAssign_self_balanced present performed).mpr .rfl
  · exact (moveAssign_balanced same present present' performed).mpr List.perm_append_comm

theorem balanced (performed : perform op place = some effect) :
    effect.Balanced Buffer.buf (touched op).dedup place := by
  cases op with
  | construct name capacity buf =>
    refine (construct_balanced performed).mpr ?_
    rw [Option.toList_none, List.append_nil]
  | moveConstruct name other =>
    exact moveConstruct_balanced (fun _ => rfl) (fun _ => rfl) performed
  | moveAssign name other =>
    rcases guardedAssign_cases performed with ⟨_, balanced⟩ | ⟨_, assigned⟩
    · exact balanced
    · exact exchange_balanced assigned
  | swap a b => exact exchange_balanced performed
  | destroy name => exact destroy_balanced (fun _ => rfl) performed

def interface : Interface Name (Op Name) Buffer Block where
  held := Buffer.buf
  touched := touched
  perform := perform
  frame := frame
  grounded performed := (balanced performed).grounded

end Buffer

/-! ### `task` -/

/-- Coroutine frames are numbered. -/
abbrev Handle := Nat

/-- `task`. -/
structure Task where
  coro : Option Handle
deriving DecidableEq, Repr

namespace Task

inductive Op (Name : Type)
  /-- `task()`, and `task` of a handle. -/
  | construct (name : Name) (coro : Option Handle)
  /-- A coroutine is called, and gets a frame. `get_return_object` makes the task of it. -/
  | call (name : Name) (coro : Handle)
  | moveConstruct (name t : Name)
  /-- `operator==` takes the frame of the other task. The operators `=` are deleted. -/
  | operatorEq (name other : Name)
  | detach (name : Name)
  | destroy (name : Name)
deriving DecidableEq, Repr

def touched : Op Name → List Name
  | .construct name _ | .call name _ | .detach name | .destroy name => [name]
  | .moveConstruct name other | .operatorEq name other => [name, other]

/-- The old frame is destroyed before that of the other task is taken. -/
def assign (task other : Task) : (Task × Task) × List Handle :=
  ((⟨other.coro⟩, ⟨none⟩), task.coro.toList)

def detach (place : Name → Option Task) (name : Name) : Option (Effect Name Task Handle) :=
  match place name with
  | some task => some { place := Function.update place name (some ⟨none⟩), given := task.coro }
  | none => none

def perform : Op Name → (Name → Option Task) → Option (Effect Name Task Handle)
  | .construct name coro, place => Ownership.construct place name ⟨coro⟩ none coro
  | .call name coro, place => Ownership.construct place name ⟨some coro⟩ (some coro) none
  | .moveConstruct name t, place =>
      Ownership.moveConstruct place name t fun source => (⟨source.coro⟩, ⟨none⟩)
  | .operatorEq name other, place => guardedAssign place name other assign
  | .detach name, place => detach place name
  | .destroy name, place => Ownership.destroy place name fun task => task.coro.toList

variable {op : Op Name} {place : Name → Option Task} {effect : Effect Name Task Handle}

theorem frame {name : Name} (performed : perform op place = some effect)
    (apart : name ∉ touched op) : effect.place name = place name := by
  cases op with
  | construct => exact construct_frame performed apart
  | call => exact construct_frame performed apart
  | moveConstruct => exact moveConstruct_frame performed apart
  | operatorEq => exact guardedAssign_frame performed apart
  | detach =>
    rw [perform, detach] at performed
    split at performed
    · cases performed
      exact Function.update_of_ne (List.ne_of_not_mem_cons apart) ..
    · cases performed
  | destroy => exact destroy_frame performed apart

theorem balanced (performed : perform op place = some effect) :
    effect.Balanced Task.coro (touched op).dedup place := by
  cases op with
  | construct name coro =>
    exact (construct_balanced performed).mpr .rfl
  | call name coro =>
    exact (construct_balanced performed).mpr .rfl
  | moveConstruct name t =>
    exact moveConstruct_balanced (fun _ => rfl) (fun _ => rfl) performed
  | operatorEq name other =>
    rcases guardedAssign_cases performed with ⟨_, balanced⟩ | ⟨different, assigned⟩
    · exact balanced
    · obtain ⟨task, source, present, present', _⟩ := moveAssign_present assigned
      refine (moveAssign_balanced different present present' assigned).mpr ?_
      show (task.coro.toList ++ source.coro.toList).Perm
        (task.coro.toList ++ (source.coro.toList ++ []))
      rw [List.append_nil]
  | detach name =>
    rw [perform, detach] at performed
    split at performed
    · rename_i task present
      cases performed
      refine balanced_one.mpr ?_
      simp [present]
    · cases performed
  | destroy name => exact destroy_balanced (fun _ => rfl) performed

def interface : Interface Name (Op Name) Task Handle where
  held := Task.coro
  touched := touched
  perform := perform
  frame := frame
  grounded performed := (balanced performed).grounded

end Task

/-! ### `sync_wait_task` and `io_service` -/

/-- What is neither kept nor released is lost. -/
theorem lost_iff {Resource : Type} {old new : Option Resource} :
    (old.toList ++ new.toList).Perm ([] ++ (new.toList ++ [])) ↔ old = none := by
  rw [List.nil_append, List.append_nil]
  refine ⟨fun perm => ?_, fun empty => by rw [empty]; rfl⟩
  have lengths := perm.length_eq
  cases old with
  | none => rfl
  | some resource =>
    rw [List.length_append] at lengths
    exact absurd lengths (by rw [Option.toList_some, List.length_singleton]; omega)

/-- `sync_wait_task`. -/
structure SyncWaitTask where
  coro : Option Handle
deriving DecidableEq, Repr

namespace SyncWaitTask

inductive Op (Name : Type)
  | construct (name : Name) (coro : Option Handle)
  /-- A coroutine is called: `make_sync_wait_task`. -/
  | call (name : Name) (coro : Handle)
  | moveConstruct (name other : Name)
  | moveAssign (name other : Name)
  | destroy (name : Name)
deriving DecidableEq, Repr

def touched : Op Name → List Name
  | .construct name _ | .call name _ | .destroy name => [name]
  | .moveConstruct name other | .moveAssign name other => [name, other]

/-- The old frame is not destroyed. -/
def assign (_ other : SyncWaitTask) : (SyncWaitTask × SyncWaitTask) × List Handle :=
  ((⟨other.coro⟩, ⟨none⟩), [])

def perform : Op Name → (Name → Option SyncWaitTask) → Option (Effect Name SyncWaitTask Handle)
  | .construct name coro, place => Ownership.construct place name ⟨coro⟩ none coro
  | .call name coro, place => Ownership.construct place name ⟨some coro⟩ (some coro) none
  | .moveConstruct name other, place =>
      Ownership.moveConstruct place name other fun source => (⟨source.coro⟩, ⟨none⟩)
  | .moveAssign name other, place => guardedAssign place name other assign
  | .destroy name, place => Ownership.destroy place name fun task => task.coro.toList

/-- A task that has a frame is not assigned another task. -/
def careful : Op Name → (Name → Option SyncWaitTask) → Prop
  | .moveAssign name other, place => name ≠ other → (place name).bind coro = none
  | _, _ => True

variable {op : Op Name} {place : Name → Option SyncWaitTask}
  {effect : Effect Name SyncWaitTask Handle}

theorem frame {name : Name} (performed : perform op place = some effect)
    (apart : name ∉ touched op) : effect.place name = place name := by
  cases op with
  | construct => exact construct_frame performed apart
  | call => exact construct_frame performed apart
  | moveConstruct => exact moveConstruct_frame performed apart
  | moveAssign => exact guardedAssign_frame performed apart
  | destroy => exact destroy_frame performed apart

theorem balanced_iff (performed : perform op place = some effect) :
    effect.Balanced coro (touched op).dedup place ↔ careful op place := by
  cases op with
  | construct name coro => exact (construct_balanced performed).trans (iff_of_true .rfl trivial)
  | call name coro => exact (construct_balanced performed).trans (iff_of_true .rfl trivial)
  | moveConstruct name other =>
    exact iff_of_true (moveConstruct_balanced (fun _ => rfl) (fun _ => rfl) performed) trivial
  | moveAssign name other =>
    rcases guardedAssign_cases performed with ⟨same, balanced⟩ | ⟨different, assigned⟩
    · exact iff_of_true balanced fun different => (different same).elim
    · obtain ⟨task, source, present, present', _⟩ := moveAssign_present assigned
      refine (moveAssign_balanced different present present' assigned).trans (lost_iff.trans ?_)
      show task.coro = none ↔ (name ≠ other → (place name).bind coro = none)
      rw [present]
      exact ⟨fun empty _ => empty, fun empty => empty different⟩
  | destroy name => exact iff_of_true (destroy_balanced (fun _ => rfl) performed) trivial

theorem grounded {frame : Handle} (performed : perform op place = some effect)
    (left : frame ∈ effect.released ++ effect.given.toList ++
      holdings coro (touched op).dedup effect.place) :
    frame ∈ holdings coro (touched op).dedup place ++ effect.opened.toList ++
      effect.taken.toList := by
  cases op with
  | moveAssign name other =>
    rcases guardedAssign_cases performed with ⟨_, balanced⟩ | ⟨_, assigned⟩
    · exact balanced.grounded left
    · refine moveAssign_grounded (fun task source => ?_) assigned left
      rintro (released | holds | nothing)
      · cases released
      · exact .inr holds
      · cases nothing
  | _ => exact ((balanced_iff performed).mpr trivial).grounded left

def interface : Interface Name (Op Name) SyncWaitTask Handle where
  held := coro
  touched := touched
  perform := perform
  frame := frame
  grounded := grounded

end SyncWaitTask

/-- What `std::make_unique` allocates for a ring. These are numbered too. -/
abbrev Ring := Nat

/-- `io_service`. -/
structure IoService where
  ring : Option Ring
deriving DecidableEq, Repr

namespace IoService

inductive Op (Name : Type)
  | construct (name : Name) (ring : Ring)
  | moveConstruct (name other : Name)
  | moveAssign (name other : Name)
  | destroy (name : Name)
deriving DecidableEq, Repr

def touched : Op Name → List Name
  | .construct name _ | .destroy name => [name]
  | .moveConstruct name other | .moveAssign name other => [name, other]

/-- The old ring is deleted, but `io_uring_queue_exit` is not called for it. -/
def assign (_ other : IoService) : (IoService × IoService) × List Ring :=
  ((⟨other.ring⟩, ⟨none⟩), [])

def perform : Op Name → (Name → Option IoService) → Option (Effect Name IoService Ring)
  | .construct name ring, place => Ownership.construct place name ⟨some ring⟩ (some ring) none
  | .moveConstruct name other, place =>
      Ownership.moveConstruct place name other fun source => (⟨source.ring⟩, ⟨none⟩)
  | .moveAssign name other, place => Ownership.moveAssign place name other assign
  | .destroy name, place => Ownership.destroy place name fun service => service.ring.toList

/-- A service that has a ring is not assigned another service. -/
def careful : Op Name → (Name → Option IoService) → Prop
  | .moveAssign name other, place => name ≠ other → (place name).bind ring = none
  | _, _ => True

variable {op : Op Name} {place : Name → Option IoService} {effect : Effect Name IoService Ring}

theorem frame {name : Name} (performed : perform op place = some effect)
    (apart : name ∉ touched op) : effect.place name = place name := by
  cases op with
  | construct => exact construct_frame performed apart
  | moveConstruct => exact moveConstruct_frame performed apart
  | moveAssign => exact moveAssign_frame performed apart
  | destroy => exact destroy_frame performed apart

theorem balanced_iff (performed : perform op place = some effect) :
    effect.Balanced ring (touched op).dedup place ↔ careful op place := by
  cases op with
  | construct name ring => exact (construct_balanced performed).trans (iff_of_true .rfl trivial)
  | moveConstruct name other =>
    exact iff_of_true (moveConstruct_balanced (fun _ => rfl) (fun _ => rfl) performed) trivial
  | moveAssign name other =>
    obtain ⟨service, source, present, present', _⟩ := moveAssign_present performed
    by_cases same : name = other
    · subst same
      cases present.symm.trans present'
      exact iff_of_true ((moveAssign_self_balanced present performed).mpr .rfl)
        fun different => (different rfl).elim
    · refine (moveAssign_balanced same present present' performed).trans (lost_iff.trans ?_)
      show service.ring = none ↔ (name ≠ other → (place name).bind ring = none)
      rw [present]
      exact ⟨fun empty _ => empty, fun empty => empty same⟩
  | destroy name => exact iff_of_true (destroy_balanced (fun _ => rfl) performed) trivial

theorem grounded {old : Ring} (performed : perform op place = some effect)
    (left : old ∈ effect.released ++ effect.given.toList ++
      holdings ring (touched op).dedup effect.place) :
    old ∈ holdings ring (touched op).dedup place ++ effect.opened.toList ++
      effect.taken.toList := by
  cases op with
  | moveAssign name other =>
    refine moveAssign_grounded (fun service source => ?_) performed left
    rintro (released | holds | nothing)
    · cases released
    · exact .inr holds
    · cases nothing
  | _ => exact ((balanced_iff performed).mpr trivial).grounded left

def interface : Interface Name (Op Name) IoService Ring where
  held := ring
  touched := touched
  perform := perform
  frame := frame
  grounded := grounded

end IoService

/-! ### What is released once -/

/-- Every descriptor is closed once, by the socket that has it in the end, as long as no socket
that has one is assigned to itself. -/
theorem sockets_close_once : KeepsBooks (@Socket.interface Name _) Socket.careful :=
  keepsBooks fun _ _ _ performed => Socket.balanced_iff performed

/-- After an assignment to itself a socket closes its descriptor again. -/
example :
    ((Transitions.execute (system Socket.interface) (start fun _ => false)
      [.call (.construct 0 (-1)), .call (.createSocket 0 5), .call (.moveAssign 0 0),
        .call (.destroy 0)]).map Prod.snd) = some [⟨5, true⟩, ⟨5, false⟩] := by decide

/-- Blocks are freed once and frames are destroyed once, whatever is done with buffers and
tasks. -/
theorem buffers_and_tasks_release_once :
    KeepsBooks (@Buffer.interface Name _) (fun _ _ => True) ∧
      KeepsBooks (@Task.interface Name _) fun _ _ => True :=
  ⟨keepsBooks fun _ _ _ performed => iff_of_true (Buffer.balanced performed) trivial,
    keepsBooks fun _ _ _ performed => iff_of_true (Task.balanced performed) trivial⟩

theorem SyncWaitTask.loses :
    AssignmentsLose (@SyncWaitTask.interface Name _) SyncWaitTask.Op.moveAssign :=
  assignmentsLose (fun _ _ => rfl) moveAssign_of_guardedAssign (fun _ _ => rfl) (fun _ _ => rfl)
    fun _ _ => rfl

theorem IoService.loses :
    AssignmentsLose (@IoService.interface Name _) IoService.Op.moveAssign :=
  assignmentsLose (fun _ _ => rfl) (fun _ performed => performed) (fun _ _ => rfl) (fun _ _ => rfl)
    fun _ _ => rfl

/-- An assignment of another object to a `sync_wait_task` or to an `io_service` that has something
loses it for ever, and nothing else does. -/
theorem assignments_lose :
    (KeepsBooks (@SyncWaitTask.interface Name _) SyncWaitTask.careful ∧
      AssignmentsLose (@SyncWaitTask.interface Name _) SyncWaitTask.Op.moveAssign) ∧
    KeepsBooks (@IoService.interface Name _) IoService.careful ∧
      AssignmentsLose (@IoService.interface Name _) IoService.Op.moveAssign :=
  ⟨⟨keepsBooks fun _ _ _ performed => SyncWaitTask.balanced_iff performed, SyncWaitTask.loses⟩,
    keepsBooks fun _ _ _ performed => IoService.balanced_iff performed, IoService.loses⟩

end Handles

end Sheep
