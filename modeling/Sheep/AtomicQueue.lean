/-
This file is a library: a bounded queue that is first in, first out, under any
number of threads. Every operation takes effect at one instant between its call
and its return. It says what the callers of a concurrent queue may rely on, and
nothing about how the queue is built.

A push that waits enters all its elements at once, behind what is there. It
returns when all of them are among the first `capacity` elements that have not
been taken. An operation that does not wait is refused only if it has looked at
an instant at which the queue had no room, or nothing in it, or somebody else was
in the middle of a call.
-/

import Mathlib.Logic.Function.Basic
import Sheep.Transitions

namespace AtomicQueue

/-- What a call returns. -/
inductive Reply
  | unit
  | bool (value : Bool)
  | count (value : Nat)
deriving DecidableEq, Repr

/-- A consumer that does not wait is content with one element, or goes on while there are any. -/
inductive Demand
  | one
  | all
deriving DecidableEq, Repr

/-- The operations. What a producer writes may depend on what it finds in the place. -/
inductive Request (Value : Type)
  | push (writes : List (Value → Value))
  | tryPush (write : Value → Value)
  | pop
  | tryPop (demand : Demand)

/-- What a consumer does after an element: it returns, or it goes on with its count. -/
inductive Onward
  | answer (reply : Reply)
  | again (count : Nat)
deriving DecidableEq, Repr

/-- How far the call of a thread has come. A producer remembers the number of its last element, and
a call that does not wait whether it has seen a reason to be refused. -/
inductive Pc (Value : Type)
  | idle
  | pushing (writes : List (Value → Value))
  | tryPushing (write : Value → Value) (reason : Bool)
  | pushed (last : Nat) (reply : Reply)
  | popping
  | trying (demand : Demand) (count : Nat) (reason : Bool)
  | holding (value : Value) (onward : Onward)
  | leaving (reply : Reply)

structure State (Thread Value : Type) where
  taken : Nat
  queue : List Value
  pc : Thread → Pc Value

/-- Only calls, the elements that are handed out and returns can be seen. -/
inductive Event (Thread Value : Type)
  | called (thread : Thread) (request : Request Value)
  | handed (thread : Thread) (value : Value)
  | returned (thread : Thread) (reply : Reply)

inductive Action (Thread Value : Type)
  | call (thread : Thread) (request : Request Value)
  | enqueue (thread : Thread) (found : List Value)
  | settle (thread : Thread)
  | dequeue (thread : Thread)
  | look (thread : Thread) (other : Option Thread)
  | refuse (thread : Thread)
  | hand (thread : Thread)
  | leave (thread : Thread)

section Step

variable {Thread Value : Type}

def start : State Thread Value where
  taken := 0
  queue := []
  pc _ := .idle

def Request.entry : Request Value → Pc Value
  | .push writes => .pushing writes
  | .tryPush write => .tryPushing write false
  | .pop => .popping
  | .tryPop demand => .trying demand 0 false

/-- What follows an element that was demanded without waiting. -/
def Demand.onward (count : Nat) : Demand → Onward
  | .one => .answer (.bool true)
  | .all => .again (count + 1)

/-- What a consumer that is refused returns. -/
def Demand.refusal (count : Nat) : Demand → Reply
  | .one => .bool false
  | .all => .count count

def Onward.pc (reason : Bool) : Onward → Pc Value
  | .answer reply => .leaving reply
  | .again count => .trying .all count reason

def Pc.busy : Pc Value → Bool
  | .idle => false
  | _ => true

/-- What a producer writes at the places it finds. -/
def written (writes : List (Value → Value)) (found : List Value) : List Value :=
  List.zipWith (fun write value => write value) writes found

/-- Where a push that waits goes on. One without elements has nothing to wait for. -/
def pushed (last : Nat) : List (Value → Value) → Pc Value
  | [] => .leaving .unit
  | _ :: _ => .pushed last .unit

/-- A call that does not wait sees a reason to be refused. -/
def Pc.warned (room some : Prop) [Decidable room] [Decidable some] : Pc Value → Option (Pc Value)
  | .tryPushing write _ => if room then none else .some (.tryPushing write true)
  | .trying demand count _ => if some then none else .some (.trying demand count true)
  | _ => none

variable [DecidableEq Thread]

def State.setPc (s : State Thread Value) (thread : Thread) (pc : Pc Value) : State Thread Value :=
  { s with pc := Function.update s.pc thread pc }

@[simp] theorem State.setPc_taken (s : State Thread Value) (thread : Thread) (pc : Pc Value) :
    (s.setPc thread pc).taken = s.taken := rfl

@[simp] theorem State.setPc_queue (s : State Thread Value) (thread : Thread) (pc : Pc Value) :
    (s.setPc thread pc).queue = s.queue := rfl

@[simp] theorem State.setPc_pc_self (s : State Thread Value) (thread : Thread) (pc : Pc Value) :
    (s.setPc thread pc).pc thread = pc := Function.update_self ..

theorem State.setPc_pc_other (s : State Thread Value) {thread other : Thread} (pc : Pc Value)
    (different : other ≠ thread) : (s.setPc thread pc).pc other = s.pc other :=
  Function.update_of_ne different ..

theorem State.setPc_setPc (s : State Thread Value) (thread : Thread) (pc pc' : Pc Value) :
    (s.setPc thread pc').setPc thread pc = s.setPc thread pc := by
  rw [setPc, setPc, setPc, Function.update_idem]

theorem State.setPc_same (s : State Thread Value) (thread : Thread) :
    s.setPc thread (s.pc thread) = s := by
  rw [setPc, Function.update_eq_self]

/-- Elements enter behind the others. -/
def State.put (s : State Thread Value) (values : List Value) : State Thread Value :=
  { s with queue := s.queue ++ values }

/-- The first element is taken. -/
def State.take (s : State Thread Value) (rest : List Value) : State Thread Value :=
  { s with taken := s.taken + 1, queue := rest }

/-- The queue under any number of threads. -/
def system (capacity : Nat) :
    Transitions.System (State Thread Value) (Action Thread Value) (Event Thread Value)
  | s, .call thread request =>
      match s.pc thread with
      | .idle => some (s.setPc thread request.entry, [.called thread request])
      | _ => none
  | s, .enqueue thread found =>
      match s.pc thread with
      | .pushing writes =>
          if found.length = writes.length then
            some ((s.put (written writes found)).setPc thread
              (pushed (s.taken + s.queue.length + writes.length) writes), [])
          else none
      | .tryPushing write _ =>
          if found.length = 1 ∧ s.queue.length < capacity then
            some ((s.put (written [write] found)).setPc thread
              (.pushed (s.taken + s.queue.length + 1) (.bool true)), [])
          else none
      | _ => none
  | s, .settle thread =>
      match s.pc thread with
      | .pushed last reply =>
          if last ≤ s.taken + capacity then some (s.setPc thread (.leaving reply), []) else none
      | _ => none
  | s, .dequeue thread =>
      match s.queue, s.pc thread with
      | value :: rest, .popping =>
          some ((s.take rest).setPc thread (.holding value (.answer .unit)), [])
      | value :: rest, .trying demand count _ =>
          some ((s.take rest).setPc thread (.holding value (demand.onward count)), [])
      | _, _ => none
  | s, .look thread none =>
      ((s.pc thread).warned (s.queue.length < capacity) (0 < s.queue.length)).map fun pc =>
        (s.setPc thread pc, [])
  | s, .look thread (some other) =>
      if other ≠ thread ∧ (s.pc other).busy then
        ((s.pc thread).warned False False).map fun pc => (s.setPc thread pc, [])
      else none
  | s, .refuse thread =>
      match s.pc thread with
      | .tryPushing _ true => some (s.setPc thread (.leaving (.bool false)), [])
      | .trying demand count true => some (s.setPc thread (.leaving (demand.refusal count)), [])
      | _ => none
  | s, .hand thread =>
      match s.pc thread with
      | .holding value onward =>
          some (s.setPc thread (onward.pc false), [.handed thread value])
      | _ => none
  | s, .leave thread =>
      match s.pc thread with
      | .leaving reply => some (s.setPc thread .idle, [.returned thread reply])
      | _ => none

/-! ### Its steps as runs -/

open Transitions

variable {capacity : Nat} {s : State Thread Value} {thread : Thread}

theorem reaches_call {request : Request Value} (idle : s.pc thread = .idle) :
    Reaches (system capacity) s (s.setPc thread request.entry) [.called thread request] := by
  refine .next .start (?_ : system capacity s (.call thread request) = _)
  rw [system, idle]

theorem reaches_enqueue {writes : List (Value → Value)} {found : List Value}
    (pc : s.pc thread = .pushing writes) (length : found.length = writes.length) :
    Reaches (system capacity) s
      ((s.put (written writes found)).setPc thread
        (pushed (s.taken + s.queue.length + writes.length) writes)) [] := by
  refine .next .start (?_ : system capacity s (.enqueue thread found) = _)
  rw [system, pc]
  exact if_pos length

theorem reaches_tryEnqueue {write : Value → Value} {reason : Bool} {value : Value}
    (pc : s.pc thread = .tryPushing write reason) (room : s.queue.length < capacity) :
    Reaches (system capacity) s
      ((s.put [write value]).setPc thread
        (.pushed (s.taken + s.queue.length + 1) (.bool true))) [] := by
  refine .next .start (?_ : system capacity s (.enqueue thread [value]) = _)
  rw [system, pc]
  exact if_pos ⟨rfl, room⟩

theorem reaches_settle {last : Nat} {reply : Reply} (pc : s.pc thread = .pushed last reply)
    (first : last ≤ s.taken + capacity) :
    Reaches (system capacity) s (s.setPc thread (.leaving reply)) [] := by
  refine .next .start (?_ : system capacity s (.settle thread) = _)
  rw [system, pc]
  exact if_pos first

theorem reaches_dequeue {value : Value} {rest : List Value} (queue : s.queue = value :: rest)
    (pc : s.pc thread = .popping) :
    Reaches (system capacity) s
      ((s.take rest).setPc thread (.holding value (.answer .unit))) [] := by
  refine .next .start (?_ : system capacity s (.dequeue thread) = _)
  rw [system, queue, pc]

theorem reaches_tryDequeue {value : Value} {rest : List Value} {demand : Demand} {count : Nat}
    {reason : Bool} (queue : s.queue = value :: rest)
    (pc : s.pc thread = .trying demand count reason) :
    Reaches (system capacity) s
      ((s.take rest).setPc thread (.holding value (demand.onward count))) [] := by
  refine .next .start (?_ : system capacity s (.dequeue thread) = _)
  rw [system, queue, pc]

/-- A call that does not wait sees that there is nothing for it, or that another call is not
done. -/
theorem reaches_look {pc : Pc Value} (warned : (s.pc thread).warned False False = some pc)
    (reason : (s.pc thread).warned (s.queue.length < capacity) (0 < s.queue.length) = some pc ∨
      ∃ other, other ≠ thread ∧ (s.pc other).busy = true) :
    Reaches (system capacity) s (s.setPc thread pc) [] := by
  rcases reason with here | ⟨other, different, busy⟩
  · refine .next .start (?_ : system capacity s (.look thread none) = _)
    rw [system, here]
    rfl
  · refine .next .start (?_ : system capacity s (.look thread (some other)) = _)
    rw [system, if_pos ⟨different, busy⟩, warned]
    rfl

theorem reaches_refuse_push {write : Value → Value} (pc : s.pc thread = .tryPushing write true) :
    Reaches (system capacity) s (s.setPc thread (.leaving (.bool false))) [] := by
  refine .next .start (?_ : system capacity s (.refuse thread) = _)
  rw [system, pc]

theorem reaches_refuse_pop {demand : Demand} {count : Nat}
    (pc : s.pc thread = .trying demand count true) :
    Reaches (system capacity) s (s.setPc thread (.leaving (demand.refusal count))) [] := by
  refine .next .start (?_ : system capacity s (.refuse thread) = _)
  rw [system, pc]

theorem reaches_hand {value : Value} {onward : Onward}
    (pc : s.pc thread = .holding value onward) :
    Reaches (system capacity) s (s.setPc thread (onward.pc false)) [.handed thread value] := by
  refine .next .start (?_ : system capacity s (.hand thread) = _)
  rw [system, pc]

theorem reaches_leave {reply : Reply} (pc : s.pc thread = .leaving reply) :
    Reaches (system capacity) s (s.setPc thread .idle) [.returned thread reply] := by
  refine .next .start (?_ : system capacity s (.leave thread) = _)
  rw [system, pc]

/-- A call that has nothing left to do returns. -/
theorem reaches_return {b : State Thread Value} {reply : Reply}
    (done : Reaches (system capacity) s (b.setPc thread (.leaving reply)) []) :
    Reaches (system capacity) s (b.setPc thread .idle) [.returned thread reply] := by
  refine done.trans ?_
  rw [← State.setPc_setPc b thread .idle (.leaving reply)]
  exact reaches_leave (State.setPc_pc_self _ _ _)

end Step

end AtomicQueue
