/-
This file models `MPMCQueue`: the slots, the two ticket counters and every
operation, one atomic access after another. A thread inside an operation stands
at a program point with its local variables. Loading a turn, claiming a ticket
and storing a turn are steps of their own, and so is each use of a slot's
storage.

An object that lives in a slot is named by the ticket with which it was
constructed. The name is not in the memory: it says what `construct`, `move` and
`destroy` of the language are applied to.
-/

import Mathlib.Algebra.Group.Nat.Defs
import Mathlib.Logic.Function.Basic
import Sheep.Transitions

namespace Sheep

/-! ### Slots -/

/-- A slot: its turn, the bytes of its storage as an element, and the object that lives there. -/
structure Slot (Element : Type) where
  turn : UInt64
  data : Element
  object : Option UInt64

namespace Slot

variable {Element : Type}

/-- `Slot::construct`, and a callable applied to the raw storage: what is written may depend on the
bytes found there. -/
def construct (slot : Slot Element) (ticket : UInt64) (write : Element → Element) : Slot Element :=
  { slot with data := write slot.data, object := some ticket }

/-- The element is moved from, or handed to a callable, which leaves it changed. -/
def use (slot : Slot Element) (change : Element → Element) : Slot Element :=
  { slot with data := change slot.data }

/-- `Slot::destroy`. The bytes stay. -/
def destroy (slot : Slot Element) : Slot Element :=
  { slot with object := none }

def setTurn (slot : Slot Element) (turn : UInt64) : Slot Element :=
  { slot with turn }

end Slot

namespace MPMCQueue

/-- The capacity of a queue, a power of two. -/
structure Capacity where
  value : UInt64
  isPower : ∃ exponent < 64, value.toNat = 2 ^ exponent

section Tickets

variable (capacity : Capacity)

/-- The slot of a ticket, by its index: `i & mask_`. -/
def getSlot (i : UInt64) : UInt64 := i &&& (capacity.value - 1)

/-- `turn(i)`. -/
def turn (i : UInt64) : UInt64 := i / capacity.value

/-- The largest `uint64_t`. -/
def maxTicket : UInt64 := UInt64.ofNat (2 ^ 64 - 1)

/-- The turn at which the producer of a ticket may write. -/
def freeTurn (ticket : UInt64) : UInt64 := turn capacity ticket * 2

/-- The turn at which the consumer of a ticket may read. -/
def fullTurn (ticket : UInt64) : UInt64 := turn capacity ticket * 2 + 1

/-- The turn a consumer leaves behind. -/
def releasedTurn (ticket : UInt64) : UInt64 :=
  if turn capacity ticket = turn capacity maxTicket then 0 else turn capacity ticket * 2 + 2

end Tickets

/-! ### Operations and program points -/

inductive Returned
  | unit
  | bool (value : Bool)
  | count (value : Nat)
deriving DecidableEq, Repr

/-- A consumer that does not wait: `try_pop` is content with one element, `bulk_pop` and
`try_consume_all` go on. -/
inductive Attempt
  | one
  | many
deriving DecidableEq, Repr

/-- What a producer does after an element: `emplace`, `emplace_with` and `bulk_push` go on with the
elements that are left, `try_emplace` returns. -/
inductive AfterPush (Element : Type)
  | bulk (rest : List (Element → Element))
  | returnTrue

/-- What a consumer does after an element. -/
inductive AfterPop (Element : Type)
  | done (value : Returned)
  | drain (change : Element → Element) (count : Nat)

/-- Where a thread stands, with the local variables of its operation. -/
inductive Pc (Element : Type)
  | idle
  | fetchHead (writes : List (Element → Element))
  | awaitFree (ticket : UInt64) (write : Element → Element) (rest : List (Element → Element))
  | loadHead (write : Element → Element)
  | testFree (ticket : UInt64) (write : Element → Element)
  | casHead (ticket : UInt64) (write : Element → Element)
  | reloadHead (ticket : UInt64) (write : Element → Element)
  | construct (ticket : UInt64) (write : Element → Element) (after : AfterPush Element)
  | publish (ticket : UInt64) (after : AfterPush Element)
  | fetchTail (change : Element → Element)
  | awaitFull (ticket : UInt64) (change : Element → Element)
  | loadTail (attempt : Attempt) (change : Element → Element)
  | testFull (attempt : Attempt) (change : Element → Element) (ticket : UInt64) (count : Nat)
  | casTail (attempt : Attempt) (change : Element → Element) (ticket : UInt64) (count : Nat)
  | reloadTail (attempt : Attempt) (change : Element → Element) (ticket : UInt64) (count : Nat)
  | read (ticket : UInt64) (change : Element → Element) (after : AfterPop Element)
  | destroy (ticket : UInt64) (after : AfterPop Element)
  | release (ticket : UInt64) (after : AfterPop Element)

/-- The operations of the queue. `push` and `try_push` are `emplace` and `try_emplace`. -/
inductive Op (Element : Type)
  | emplace (element : Element)
  | emplaceWith (f : Element → Element)
  | bulkPush (elements : List Element)
  | tryEmplace (element : Element)
  | pop
  | tryPop
  | bulkPop
  | consume (f : Element → Element)
  | tryConsumeAll (f : Element → Element)

section Entries

variable {Element : Type}

def emplace (element : Element) : Pc Element := .fetchHead [fun _ => element]

def emplaceWith (f : Element → Element) : Pc Element := .fetchHead [f]

def bulkPush (elements : List Element) : Pc Element :=
  .fetchHead (elements.map fun element _ => element)

def tryEmplace (element : Element) : Pc Element := .loadHead fun _ => element

/-- `moved` is what moving from an element leaves of it. -/
def pop (moved : Element → Element) : Pc Element := .fetchTail moved

def tryPop (moved : Element → Element) : Pc Element := .loadTail .one moved

def bulkPop (moved : Element → Element) : Pc Element := .loadTail .many moved

def consume (f : Element → Element) : Pc Element := .fetchTail f

def tryConsumeAll (f : Element → Element) : Pc Element := .loadTail .many f

/-- The first program point of an operation. -/
def Op.entry (moved : Element → Element) : Op Element → Pc Element
  | .emplace element => MPMCQueue.emplace element
  | .emplaceWith f => MPMCQueue.emplaceWith f
  | .bulkPush elements => MPMCQueue.bulkPush elements
  | .tryEmplace element => MPMCQueue.tryEmplace element
  | .pop => MPMCQueue.pop moved
  | .tryPop => MPMCQueue.tryPop moved
  | .bulkPop => MPMCQueue.bulkPop moved
  | .consume f => MPMCQueue.consume f
  | .tryConsumeAll f => MPMCQueue.tryConsumeAll f

end Entries

/-! ### States and events -/

structure State (Thread Element : Type) where
  head : UInt64
  tail : UInt64
  slots : UInt64 → Slot Element
  pc : Thread → Pc Element

/-- What can be seen of a run. -/
inductive Event (Thread Element : Type)
  | called (thread : Thread) (op : Op Element)
  | claimedHead (thread : Thread) (first : UInt64) (count : Nat)
  | claimedTail (thread : Thread) (ticket : UInt64)
  | constructed (thread : Thread) (ticket : UInt64) (element : Element)
  | read (thread : Thread) (ticket : UInt64) (element : Element)
  | destroyed (index : UInt64) (object : Option UInt64)
  | returned (thread : Thread) (value : Returned)

/-- What an operation returns in a step, if it does. -/
def returned {Thread Element : Type} : List (Event Thread Element) → Option Returned
  | [] => none
  | .returned _ value :: _ => some value
  | _ :: events => returned events

inductive Action (Thread Element : Type)
  | call (thread : Thread) (op : Op Element)
  | step (thread : Thread)

section Step

variable {Thread Element : Type}

/-- A queue that nobody has used. The storage of its slots is not initialised. -/
def start (bytes : UInt64 → Element) : State Thread Element where
  head := 0
  tail := 0
  slots index := { turn := 0, data := bytes index, object := none }
  pc _ := .idle

namespace State

def setSlot (s : State Thread Element) (index : UInt64) (slot : Slot Element) :
    State Thread Element :=
  { s with slots := Function.update s.slots index slot }

section SetSlot

variable (s : State Thread Element) (index : UInt64) (slot : Slot Element)

@[simp] theorem setSlot_head : (s.setSlot index slot).head = s.head := rfl

@[simp] theorem setSlot_tail : (s.setSlot index slot).tail = s.tail := rfl

@[simp] theorem setSlot_pc : (s.setSlot index slot).pc = s.pc := rfl

@[simp] theorem setSlot_slots_self : (s.setSlot index slot).slots index = slot :=
  Function.update_self ..

theorem setSlot_slots_other {other : UInt64} (different : other ≠ index) :
    (s.setSlot index slot).slots other = s.slots other := Function.update_of_ne different ..

end SetSlot

variable [DecidableEq Thread]

def setPc (s : State Thread Element) (thread : Thread) (pc : Pc Element) :
    State Thread Element :=
  { s with pc := Function.update s.pc thread pc }

variable (s : State Thread Element) (thread : Thread) (pc : Pc Element)

@[simp] theorem setPc_head : (s.setPc thread pc).head = s.head := rfl

@[simp] theorem setPc_tail : (s.setPc thread pc).tail = s.tail := rfl

@[simp] theorem setPc_slots : (s.setPc thread pc).slots = s.slots := rfl

@[simp] theorem setPc_pc_self : (s.setPc thread pc).pc thread = pc := Function.update_self ..

theorem setPc_pc_other {other : Thread} (different : other ≠ thread) :
    (s.setPc thread pc).pc other = s.pc other := Function.update_of_ne different ..

theorem setPc_setPc (pc' : Pc Element) :
    (s.setPc thread pc').setPc thread pc = s.setPc thread pc := by
  rw [setPc, setPc, setPc, Function.update_idem]

end State

/-- Go on with the next ticket, or return. -/
def AfterPush.next (thread : Thread) (ticket : UInt64) :
    AfterPush Element → Pc Element × List (Event Thread Element)
  | .bulk [] => (.idle, [.returned thread .unit])
  | .bulk (write :: rest) => (.awaitFree ticket write rest, [])
  | .returnTrue => (.idle, [.returned thread (.bool true)])

def AfterPop.next (thread : Thread) (ticket : UInt64) :
    AfterPop Element → Pc Element × List (Event Thread Element)
  | .done value => (.idle, [.returned thread value])
  | .drain change count => (.testFull .many change (ticket + 1) (count + 1), [])

/-- What follows an element that an attempt has claimed. -/
def Attempt.after (change : Element → Element) (count : Nat) : Attempt → AfterPop Element
  | .one => .done (.bool true)
  | .many => .drain change count

/-- What an attempt returns when the queue is empty. -/
def Attempt.giveUp (count : Nat) : Attempt → Returned
  | .one => .bool false
  | .many => .count count

/-- The ticket an attempt goes on with when the tail has moved. `try_pop` keeps its old one. -/
def Attempt.retry (old now : UInt64) : Attempt → UInt64
  | .one => old
  | .many => now

variable [DecidableEq Thread]

/-- One step of a thread inside an operation. -/
def advance (capacity : Capacity) (s : State Thread Element) (thread : Thread) :
    Pc Element → Option (State Thread Element × List (Event Thread Element))
  | .idle => none
  | .fetchHead writes =>
      let onward := (AfterPush.bulk writes).next thread s.head
      some ({ s with head := s.head + UInt64.ofNat writes.length }.setPc thread onward.1,
        .claimedHead thread s.head writes.length :: onward.2)
  | .awaitFree ticket write rest =>
      if freeTurn capacity ticket = (s.slots (getSlot capacity ticket)).turn then
        some (s.setPc thread (.construct ticket write (.bulk rest)), [])
      else some (s, [])
  | .loadHead write => some (s.setPc thread (.testFree s.head write), [])
  | .testFree ticket write =>
      if freeTurn capacity ticket = (s.slots (getSlot capacity ticket)).turn then
        some (s.setPc thread (.casHead ticket write), [])
      else some (s.setPc thread (.reloadHead ticket write), [])
  | .casHead ticket write =>
      if s.head = ticket then
        some ({ s with head := ticket + 1 }.setPc thread (.construct ticket write .returnTrue),
          [.claimedHead thread ticket 1])
      else some (s.setPc thread (.testFree s.head write), [])
  | .reloadHead ticket write =>
      if s.head = ticket then some (s.setPc thread .idle, [.returned thread (.bool false)])
      -- `old_head` is not refreshed
      else some (s.setPc thread (.testFree ticket write), [])
  | .construct ticket write after =>
      let index := getSlot capacity ticket
      let slot := (s.slots index).construct ticket write
      some ((s.setSlot index slot).setPc thread (.publish ticket after),
        [.constructed thread ticket slot.data])
  | .publish ticket after =>
      let index := getSlot capacity ticket
      let slot := (s.slots index).setTurn (fullTurn capacity ticket)
      let onward := after.next thread (ticket + 1)
      some ((s.setSlot index slot).setPc thread onward.1, onward.2)
  | .fetchTail change =>
      some ({ s with tail := s.tail + 1 }.setPc thread (.awaitFull s.tail change),
        [.claimedTail thread s.tail])
  | .awaitFull ticket change =>
      if fullTurn capacity ticket = (s.slots (getSlot capacity ticket)).turn then
        some (s.setPc thread (.read ticket change (.done .unit)), [])
      else some (s, [])
  | .loadTail attempt change => some (s.setPc thread (.testFull attempt change s.tail 0), [])
  | .testFull attempt change ticket count =>
      if fullTurn capacity ticket = (s.slots (getSlot capacity ticket)).turn then
        some (s.setPc thread (.casTail attempt change ticket count), [])
      else some (s.setPc thread (.reloadTail attempt change ticket count), [])
  | .casTail attempt change ticket count =>
      if s.tail = ticket then
        some ({ s with tail := ticket + 1 }.setPc thread
          (.read ticket change (attempt.after change count)), [.claimedTail thread ticket])
      else some (s.setPc thread (.testFull attempt change s.tail count), [])
  | .reloadTail attempt change ticket count =>
      if s.tail = ticket then
        some (s.setPc thread .idle, [.returned thread (attempt.giveUp count)])
      else
        some (s.setPc thread (.testFull attempt change (attempt.retry ticket s.tail) count), [])
  | .read ticket change after =>
      let index := getSlot capacity ticket
      some ((s.setSlot index ((s.slots index).use change)).setPc thread (.destroy ticket after),
        [.read thread ticket (s.slots index).data])
  | .destroy ticket after =>
      let index := getSlot capacity ticket
      some ((s.setSlot index (s.slots index).destroy).setPc thread (.release ticket after),
        [.destroyed index (s.slots index).object])
  | .release ticket after =>
      let index := getSlot capacity ticket
      let slot := (s.slots index).setTurn (releasedTurn capacity ticket)
      let onward := after.next thread ticket
      some ((s.setSlot index slot).setPc thread onward.1, onward.2)

/-- The queue under any number of threads: an idle thread calls an operation, or a thread inside
one takes its next step. -/
def system (capacity : Capacity) (moved : Element → Element) :
    Transitions.System (State Thread Element) (Action Thread Element) (Event Thread Element)
  | s, .call thread op =>
      match s.pc thread with
      | .idle => some (s.setPc thread (op.entry moved), [.called thread op])
      | _ => none
  | s, .step thread => advance capacity s thread (s.pc thread)

/-- `~Slot`: a slot whose turn is odd destroys its element. -/
def destructSlot (s : State Thread Element) (index : UInt64) : List (Event Thread Element) :=
  if (s.slots index).turn &&& 1 ≠ 0 then [.destroyed index (s.slots index).object] else []

/-- `~MPMCQueue`. -/
def destruct (capacity : Capacity) (s : State Thread Element) : List (Event Thread Element) :=
  (List.range capacity.value.toNat).flatMap fun index => destructSlot s (UInt64.ofNat index)

end Step

end MPMCQueue

end Sheep
