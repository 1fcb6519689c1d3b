/-
This file says which call a thread of the queue is in. The trace of a run tells it,
and wherever the thread stands in between is a program point of that call.
-/

import Sheep.QueueDelivery

namespace Sheep

namespace MPMCQueue

/-! ### Calls -/

/-- A fold over entries that change nothing. -/
theorem foldl_of_fixed {Value Entry : Type} {after : Value → Entry → Value} {value : Value}
    {entries : List Entry} (fixed : ∀ entry ∈ entries, after value entry = value) :
    entries.foldl after value = value := by
  induction entries with
  | nil => rfl
  | cons entry rest inductionHypothesis =>
    obtain ⟨here, later⟩ := List.forall_mem_cons.mp fixed
    rw [List.foldl_cons, here]
    exact inductionHypothesis later

section Calls

variable {Thread Element : Type} [DecidableEq Thread]

/-- The call a thread is in after an event, if it was in the given one before. -/
def afterEvent (thread : Thread) (call : Option (Op Element)) :
    Event Thread Element → Option (Op Element)
  | .called other op => if other = thread then some op else call
  | .returned other _ => if other = thread then none else call
  | _ => call

/-- The call a thread is in at the end of a run. -/
def callOf (thread : Thread) (trace : List (Event Thread Element)) : Option (Op Element) :=
  trace.foldl (afterEvent thread) none

theorem callOf_append (thread : Thread) (trace events : List (Event Thread Element)) :
    callOf thread (trace ++ events) = events.foldl (afterEvent thread) (callOf thread trace) :=
  List.foldl_append

end Calls

/-! ### Program points of a call -/

/-- The operations by their loops. -/
inductive Manner
  | push
  | tryPush
  | pop
  | attempt (attempt : Attempt)
deriving DecidableEq, Repr

variable {Thread Element : Type}

def Op.manner : Op Element → Manner
  | .emplace _ => .push
  | .emplaceWith _ => .push
  | .bulkPush _ => .push
  | .tryEmplace _ => .tryPush
  | .pop => .pop
  | .consume _ => .pop
  | .tryPop => .attempt .one
  | .bulkPop => .attempt .many
  | .tryConsumeAll _ => .attempt .many

def AfterPush.manner : AfterPush Element → Manner
  | .bulk _ => .push
  | .returnTrue => .tryPush

def AfterPop.manner : AfterPop Element → Option Manner
  | .done .unit => some .pop
  | .done (.bool true) => some (.attempt .one)
  | .done _ => none
  | .drain _ _ => some (.attempt .many)

/-- The operations a program point belongs to. -/
def Pc.manner : Pc Element → Option Manner
  | .idle => none
  | .fetchHead _ => some .push
  | .awaitFree _ _ _ => some .push
  | .loadHead _ => some .tryPush
  | .testFree _ _ => some .tryPush
  | .casHead _ _ => some .tryPush
  | .reloadHead _ _ => some .tryPush
  | .construct _ _ after => some after.manner
  | .publish _ after => some after.manner
  | .fetchTail _ => some .pop
  | .awaitFull _ _ => some .pop
  | .loadTail attempt _ => some (.attempt attempt)
  | .testFull attempt _ _ _ => some (.attempt attempt)
  | .casTail attempt _ _ _ => some (.attempt attempt)
  | .reloadTail attempt _ _ _ => some (.attempt attempt)
  | .read _ _ after => after.manner
  | .destroy _ after => after.manner
  | .release _ after => after.manner

theorem manner_entry (moved : Element → Element) (op : Op Element) :
    (op.entry moved).manner = some op.manner := by
  cases op <;> rfl

theorem manner_after (change : Element → Element) (count : Nat) (attempt : Attempt) :
    (attempt.after change count).manner = some (.attempt attempt) := by
  cases attempt <;> rfl

variable [DecidableEq Thread] {capacity : Capacity} {s next : State Thread Element}
  {thread : Thread} {events : List (Event Thread Element)}

/-- A step of a call leads to another point of it, or returns from it. -/
def Onward (thread : Thread) (call : Option (Op Element)) (manner : Manner) (pc : Pc Element)
    (events : List (Event Thread Element)) : Prop :=
  (pc = .idle ∧ events.foldl (afterEvent thread) call = none) ∨
    (pc.manner = some manner ∧ events.foldl (afterEvent thread) call = call)

theorem onward_pushNext (thread : Thread) (ticket : UInt64) (after : AfterPush Element)
    (call : Option (Op Element)) :
    Onward thread call after.manner (after.next thread ticket).1 (after.next thread ticket).2 := by
  cases after with
  | bulk rest =>
    cases rest with
    | nil => exact Or.inl ⟨rfl, if_pos rfl⟩
    | cons write more => exact Or.inr ⟨rfl, rfl⟩
  | returnTrue => exact Or.inl ⟨rfl, if_pos rfl⟩

theorem onward_popNext (thread : Thread) {manner : Manner} (ticket : UInt64)
    {after : AfterPop Element} (same : after.manner = some manner)
    (call : Option (Op Element)) :
    Onward thread call manner (after.next thread ticket).1 (after.next thread ticket).2 := by
  cases after with
  | done value => exact Or.inl ⟨rfl, if_pos rfl⟩
  | drain change count => exact Or.inr ⟨same, rfl⟩

theorem onward_advance {manner : Manner} (same : (s.pc thread).manner = some manner)
    (call : Option (Op Element))
    (step : advance capacity s thread (s.pc thread) = some (next, events)) :
    Onward thread call manner (next.pc thread) events := by
  cases advances_of_advance step with
  | @fetchHead writes pc =>
    rw [pc] at same
    cases same
    rw [State.setPc_pc_self]
    exact onward_pushNext thread s.head (.bulk writes) call
  | @publish ticket after pc =>
    rw [pc] at same
    cases same
    rw [State.setPc_pc_self]
    exact onward_pushNext thread (ticket + 1) after call
  | @release ticket after pc =>
    rw [pc] at same
    rw [State.setPc_pc_self]
    exact onward_popNext thread ticket same call
  | spinFree pc | spinFull pc => exact Or.inr ⟨same, rfl⟩
  | giveUpHead pc | giveUpTail pc =>
    rw [State.setPc_pc_self]
    exact Or.inl ⟨rfl, if_pos rfl⟩
  | @winTail attempt change count pc =>
    rw [pc] at same
    rw [State.setPc_pc_self]
    exact Or.inr ⟨(manner_after change count attempt).trans same, rfl⟩
  | _ pc =>
    rw [pc] at same
    rw [State.setPc_pc_self]
    exact Or.inr ⟨same, rfl⟩

/-- A step inside an operation begins no call. -/
theorem not_called_of_advance
    (step : advance capacity s thread (s.pc thread) = some (next, events)) (other : Thread)
    (op : Op Element) : .called other op ∉ events :=
  fun member => inside_of_advance step _ member

/-- An event says nothing about the calls of other threads. -/
theorem afterEvent_other {other : Thread} {event : Event Thread Element}
    (inside : event.Inside thread) (different : other ≠ thread) (call : Option (Op Element)) :
    afterEvent other call event = call := by
  cases event with
  | called caller op => exact absurd inside id
  | returned caller value =>
    cases Option.some.inj inside
    exact if_neg different.symm
  | _ => rfl

theorem call_advance_other {other : Thread} (different : other ≠ thread)
    (call : Option (Op Element))
    (step : advance capacity s thread (s.pc thread) = some (next, events)) :
    events.foldl (afterEvent other) call = call :=
  foldl_of_fixed fun event member =>
    afterEvent_other (inside_of_advance step event member) different call

/-! ### Every run -/

/-- A thread that is in a call stands at a point of it, the others are idle. -/
def InCalls (s : State Thread Element) (trace : List (Event Thread Element)) : Prop :=
  ∀ thread, (callOf thread trace = none ∧ s.pc thread = .idle) ∨
    ∃ op, callOf thread trace = some op ∧ (s.pc thread).manner = some op.manner

variable {trace : List (Event Thread Element)} {moved : Element → Element}
  {bytes : UInt64 → Element}

theorem inCalls_advance (inCalls : InCalls s trace)
    (step : advance capacity s thread (s.pc thread) = some (next, events)) :
    InCalls next (trace ++ events) := by
  intro other
  rw [callOf_append]
  by_cases this : other = thread
  · subst this
    rcases inCalls other with ⟨_, idle⟩ | ⟨op, call, manner⟩
    · rw [idle] at step
      cases step
    · rcases (onward_advance manner (callOf other trace) step) with ended | goesOn
      · exact Or.inl ⟨ended.2, ended.1⟩
      · exact Or.inr ⟨op, goesOn.2.trans call, goesOn.1⟩
  · rw [pc_advance_other step this, call_advance_other this _ step]
    exact inCalls other

theorem inCalls_call (inCalls : InCalls s trace) (op : Op Element) :
    InCalls (s.setPc thread (op.entry moved)) (trace ++ [.called thread op]) := by
  intro other
  rw [callOf_append]
  by_cases this : other = thread
  · subst this
    rw [State.setPc_pc_self]
    exact Or.inr ⟨op, if_pos rfl, manner_entry moved op⟩
  · have silent : thread ≠ other := fun same => this same.symm
    rw [State.setPc_pc_other _ _ _ this, List.foldl_cons, afterEvent, if_neg silent]
    exact inCalls other

theorem inCalls_of_reaches
    (run : Transitions.Reaches (system capacity moved) (start bytes) s trace) :
    InCalls s trace := by
  refine run.invariant InCalls (fun _ => Or.inl ⟨rfl, rfl⟩) ?_
  intro s trace action next events _ inCalls step
  rcases system_cases step with ⟨thread, op, _, rfl, rfl⟩ | ⟨thread, step⟩
  · exact inCalls_call inCalls op
  · exact inCalls_advance inCalls step

/-- A thread that is in a call stands at one of its points. -/
theorem manner_of_callOf
    (run : Transitions.Reaches (system capacity moved) (start bytes) s trace) {op : Op Element}
    (call : callOf thread trace = some op) : (s.pc thread).manner = some op.manner := by
  rcases inCalls_of_reaches run thread with ⟨none, _⟩ | ⟨op', call', manner⟩
  · rw [none] at call
    cases call
  · rw [call] at call'
    cases call'
    exact manner

end MPMCQueue

end Sheep
