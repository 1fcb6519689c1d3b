/-
This file finds the reason for which an operation that does not wait gives up. It
has tested the turn of a slot and then seen the counter at the same ticket as
before. Counters never go back, so the counter was there at the test as well, and
nobody had claimed the ticket. A turn that is too early then says that somebody
else is not done with the slot.
-/

import Sheep.QueueCalls

namespace Sheep

open Turnstile Transitions

namespace MPMCQueue

variable {Thread Element : Type} {capacity : Capacity} {s next : State Thread Element}
  {thread : Thread} {events trace : List (Event Thread Element)}

/-! ### Full and empty queues -/

/-- The thread of the ticket has not stored the turn behind it: nobody has claimed the ticket yet,
or some thread still holds it. -/
def Pending (s : State Thread Element) (side : Side) (ticket : Nat) : Prop :=
  s.count side ≤ ticket ∨ ∃ thread, (s.pc thread).Holds side ticket

/-- The next ticket to push has to wait for the consumer one lap before. -/
structure Full (capacity : Capacity) (s : State Thread Element) (ticket : UInt64) : Prop where
  head : s.head = ticket
  lap : capacity.value ≤ ticket
  unreleased : Pending s .tail (ticket.toNat - capacity.value.toNat)

/-- The next ticket to pop has to wait for its producer. -/
structure EmptyFront (s : State Thread Element) (ticket : UInt64) : Prop where
  tail : s.tail = ticket
  unpublished : Pending s .head ticket.toNat

/-- A slot has not got beyond the turn of a ticket whose thread is not done. -/
theorem pending_of_turn_le (orderly : Orderly (s.board capacity)) {side : Side} {ticket : Nat}
    (small : ticket < 2 ^ 64)
    (turn : (s.slots (pass capacity side ticket).place).turn.toNat ≤
      (pass capacity side ticket).turn) : Pending s side ticket := by
  by_cases unclaimed : s.count side ≤ ticket
  · exact Or.inl unclaimed
  · have issued : (s.board capacity).issued (pass capacity side ticket) :=
      ⟨side, ticket, Nat.lt_of_not_le unclaimed, rfl⟩
    rcases orderly.issued_kept _ issued with passed | ⟨holder, side', ticket', holds, same⟩
    · exact absurd turn (Nat.not_le.mpr passed)
    · obtain ⟨rfl, rfl⟩ := pass_injective small holds.1 same
      exact Or.inr ⟨holder, holds⟩

/-- The ticket one lap before meets the same slot. -/
theorem pass_previous {ticket : UInt64} (side : Side)
    (lap : capacity.value.toNat ≤ ticket.toNat) :
    (pass capacity side (ticket.toNat - capacity.value.toNat)).place = getSlot capacity ticket ∧
      (pass capacity side (ticket.toNat - capacity.value.toNat)).turn + 2 =
        2 * (ticket.toNat / capacity.value.toNat) + side.parity := by
  have bounded := ticket.toNat_lt
  constructor
  · refine UInt64.toNat_inj.mp ?_
    rw [pass, toNat_getSlot, toNat_getSlot, UInt64.toNat_ofNat_of_lt' (by
      show _ < 2 ^ 64
      omega)]
    exact (Nat.mod_eq_sub_mod lap).symm
  · have laps := Nat.div_eq_sub_div capacity.pos lap
    rw [pass]
    show 2 * _ + _ + 2 = _
    omega

/-- Where the next ticket to push does not match its slot, the queue is full. -/
theorem full_of_mismatch (orderly : Orderly (s.board capacity)) {ticket : UInt64}
    (head : s.head = ticket) (small : ticket.toNat < 2 ^ 63)
    (mismatch : freeTurn capacity ticket ≠ (s.slots (getSlot capacity ticket)).turn) :
    Full capacity s ticket := by
  have unclaimed : s.count .head = ticket.toNat := congrArg UInt64.toNat head
  have le := turn_le_of_unclaimed orderly unclaimed.le
  rw [turn_pass_head] at le
  have less : (s.slots (getSlot capacity ticket)).turn.toNat ≠
      2 * (ticket.toNat / capacity.value.toNat) := by
    intro same
    refine mismatch (UInt64.toNat_inj.mp ?_)
    rw [toNat_freeTurn capacity small, same]
  have lap : capacity.value.toNat ≤ ticket.toNat := by
    by_contra before
    rw [Nat.div_eq_of_lt (Nat.lt_of_not_le before)] at le less
    omega
  obtain ⟨place, turn⟩ := pass_previous .tail lap
  have parity : Side.tail.parity = 1 := rfl
  refine ⟨head, UInt64.le_iff_toNat_le.mpr lap, pending_of_turn_le orderly (by omega) ?_⟩
  rw [place]
  omega

/-- Where the next ticket to pop does not match its slot, its element has not been published. -/
theorem emptyFront_of_mismatch (orderly : Orderly (s.board capacity)) {ticket : UInt64}
    (tail : s.tail = ticket) (small : ticket.toNat < 2 ^ 63)
    (mismatch : fullTurn capacity ticket ≠ (s.slots (getSlot capacity ticket)).turn) :
    EmptyFront s ticket := by
  have unclaimed : s.count .tail = ticket.toNat := congrArg UInt64.toNat tail
  have le := turn_le_of_unclaimed orderly unclaimed.le
  rw [turn_pass_tail] at le
  have less : (s.slots (getSlot capacity ticket)).turn.toNat ≠
      2 * (ticket.toNat / capacity.value.toNat) + 1 := by
    intro same
    refine mismatch (UInt64.toNat_inj.mp ?_)
    rw [toNat_fullTurn capacity small, same]
  refine ⟨tail, pending_of_turn_le orderly ticket.toNat_lt ?_⟩
  rw [pass_toNat, turn_pass_head]
  omega

/-! ### The last test -/

/-- A thread that is about to look at the counter again had found a turn that does not match. -/
def Mismatched (capacity : Capacity) (s : State Thread Element) (thread : Thread) :
    Pc Element → Prop
  | .reloadHead ticket _ => (s.pc thread).tested = some (.head, ticket) ∧
      freeTurn capacity ticket ≠ (s.slots (getSlot capacity ticket)).turn
  | .reloadTail _ _ ticket _ => (s.pc thread).tested = some (.tail, ticket) ∧
      fullTurn capacity ticket ≠ (s.slots (getSlot capacity ticket)).turn
  | _ => True

theorem mismatched_pushNext (thread : Thread) (ticket : UInt64) (after : AfterPush Element) :
    Mismatched capacity s thread (after.next thread ticket).1 := by
  cases after with
  | bulk rest => cases rest <;> exact trivial
  | returnTrue => exact trivial

/-! ### Instants of a call -/

variable [DecidableEq Thread] {moved : Element → Element} {bytes : UInt64 → Element}

/-- The run has gone through a state in which something holds, in the call the thread is in at its
end. -/
def Instant (capacity : Capacity) (moved : Element → Element) (bytes : UInt64 → Element)
    (thread : Thread) (s : State Thread Element) (trace : List (Event Thread Element))
    (holds : State Thread Element → Prop) : Prop :=
  ∃ s' before after, trace = before ++ after ∧
    Reaches (system capacity moved) (start bytes) s' before ∧
    Reaches (system capacity moved) s' s after ∧
    (callOf thread before).isSome ∧ (∀ op, .called thread op ∉ after) ∧ holds s'

/-- It still has, after a step that begins no call of the thread. -/
theorem Instant.onward {holds : State Thread Element → Prop} {action : Action Thread Element}
    (instant : Instant capacity moved bytes thread s trace holds)
    (step : system capacity moved s action = some (next, events))
    (silent : ∀ op, .called thread op ∉ events) :
    Instant capacity moved bytes thread next (trace ++ events) holds := by
  obtain ⟨s', before, after, split, run, later, call, quiet, here⟩ := instant
  refine ⟨s', before, after ++ events, by rw [split, List.append_assoc], run, .next later step,
    call, fun op member => ?_, here⟩
  rcases List.mem_append.mp member with old | new
  · exact quiet op old
  · exact silent op new

/-- What holds in the state of a run holds at an instant, if its thread is in a call. -/
theorem instant_here {holds : State Thread Element → Prop}
    (run : Reaches (system capacity moved) (start bytes) s trace)
    (call : (callOf thread trace).isSome) (here : holds s) :
    Instant capacity moved bytes thread s trace holds :=
  ⟨s, trace, [], (List.append_nil _).symm, run, .start, call,
    fun _ member => absurd member List.not_mem_nil, here⟩

/-- The test is the step that leads to the second look. -/
theorem mismatched_advance
    (step : advance capacity s thread (s.pc thread) = some (next, events)) :
    Mismatched capacity s thread (next.pc thread) := by
  cases advances_of_advance step with
  | fetchHead pc | publish pc =>
    rw [State.setPc_pc_self]
    exact mismatched_pushNext _ _ _
  | @release ticket after pc =>
    rw [State.setPc_pc_self]
    cases after <;> exact trivial
  | missFree pc mismatch | missFull pc mismatch =>
    rw [State.setPc_pc_self]
    exact ⟨congrArg Pc.tested pc, mismatch⟩
  | spinFree pc | spinFull pc =>
    rw [pc]
    exact trivial
  | _ =>
    rw [State.setPc_pc_self]
    exact trivial

/-- Every thread in a call has gone through such an instant. -/
theorem instant_of_reaches
    (run : Reaches (system capacity moved) (start bytes) s trace)
    (call : (callOf thread trace).isSome) :
    Instant capacity moved bytes thread s trace
      fun s' => Mismatched capacity s' thread (s.pc thread) := by
  refine run.invariant
    (fun s trace => (callOf thread trace).isSome → Instant capacity moved bytes thread s trace
      fun s' => Mismatched capacity s' thread (s.pc thread))
    (fun none => absurd none Bool.false_ne_true) ?_ call
  intro s trace action next events run inductionHypothesis step call
  have after : Reaches (system capacity moved) (start bytes) next (trace ++ events) :=
    .next run step
  rcases system_cases step with ⟨other, op, idle, rfl, rfl⟩ | ⟨other, advanced⟩
  · by_cases this : thread = other
    · subst this
      refine instant_here after call ?_
      rw [State.setPc_pc_self]
      cases op <;> exact trivial
    · have silent : other ≠ thread := fun same => this same.symm
      rw [State.setPc_pc_other _ _ _ this]
      rw [callOf_append, List.foldl_cons, afterEvent, if_neg silent] at call
      refine (inductionHypothesis call).onward step fun op' member => ?_
      cases List.mem_singleton.mp member
      exact this rfl
  · have quiet := not_called_of_advance advanced thread
    by_cases this : thread = other
    · subst this
      have calling : (callOf thread trace).isSome := by
        rcases inCalls_of_reaches run thread with ⟨_, idle⟩ | ⟨op, inOp, _⟩
        · rw [idle] at advanced
          cases advanced
        · rw [inOp]
          rfl
      exact (instant_here run calling (mismatched_advance advanced)).onward step quiet
    · rw [pc_advance_other advanced this]
      rw [callOf_append, call_advance_other this _ advanced] at call
      exact (inductionHypothesis call).onward step quiet

/-! ### Giving up -/

/-- A counter moves on by what is claimed. -/
theorem count_of_reaches {s' : State Thread Element} {before after : List (Event Thread Element)}
    (run : Reaches (system capacity moved) (start bytes) s' before)
    (later : Reaches (system capacity moved) s' s after) (few : FewTickets (before ++ after))
    (side : Side) : s.count side = s'.count side + (claims side after).length := by
  have claimed := (sound_of_reaches run few.of_append).claimed side
  have claimedLater := (sound_of_reaches (run.trans later) few).claimed side
  have lengths := congrArg List.length claimedLater
  rw [claims_append, claimed, List.length_append, List.length_range, List.length_range] at lengths
  exact lengths.symm

/-- Counters do not go back. -/
theorem count_le_of_reaches {s' : State Thread Element} {before after : List (Event Thread Element)}
    (run : Reaches (system capacity moved) (start bytes) s' before)
    (later : Reaches (system capacity moved) s' s after) (few : FewTickets (before ++ after))
    (side : Side) : s'.count side ≤ s.count side := by
  rw [count_of_reaches run later few side]
  exact Nat.le_add_right _ _

/-- The counter was at the ticket when the turn did not match. -/
theorem count_of_instant {s' : State Thread Element} {before after : List (Event Thread Element)}
    {side : Side} {ticket : UInt64}
    (run : Reaches (system capacity moved) (start bytes) s' before)
    (later : Reaches (system capacity moved) s' s after) (few : FewTickets (before ++ after))
    (tested : (s'.pc thread).tested = some (side, ticket)) (now : s.count side = ticket.toNat) :
    s'.count side = ticket.toNat := by
  have sound := sound_of_reaches run few.of_append
  have low := (sound.looked thread).tested side ticket tested
  have high := count_le_of_reaches run later few side
  omega

/-- A counter is small. -/
theorem count_lt_of_few (run : Reaches (system capacity moved) (start bytes) s trace)
    (few : FewTickets trace) (side : Side) : s.count side < 2 ^ 63 :=
  (sound_of_reaches run few).count_lt few side

/-- The program points at which an operation returns, with what it returns there. -/
inductive ReturnsAt (s : State Thread Element) : Pc Element → Returned → Prop
  | nothing : ReturnsAt s (.fetchHead []) .unit
  | published {ticket : UInt64} : ReturnsAt s (.publish ticket (.bulk [])) .unit
  | tried {ticket : UInt64} : ReturnsAt s (.publish ticket .returnTrue) (.bool true)
  | released {ticket : UInt64} {value : Returned} :
      ReturnsAt s (.release ticket (.done value)) value
  | full {write : Element → Element} : ReturnsAt s (.reloadHead s.head write) (.bool false)
  | empty {attempt : Attempt} {change : Element → Element} {count : Nat} :
      ReturnsAt s (.reloadTail attempt change s.tail count) (attempt.giveUp count)

theorem returnsAt_of_advance {value : Returned}
    (step : advance capacity s thread (s.pc thread) = some (next, events))
    (told : .returned thread value ∈ events) : ReturnsAt s (s.pc thread) value := by
  cases advances_of_advance step with
  | @fetchHead writes pc =>
    rw [pc]
    cases writes with
    | nil =>
      have last := (List.mem_cons.mp told).resolve_left fun other => by cases other
      cases List.mem_singleton.mp last
      exact .nothing
    | cons write rest => cases List.mem_singleton.mp told
  | @publish ticket after pc =>
    rw [pc]
    cases after with
    | bulk rest =>
      cases rest with
      | nil =>
        cases List.mem_singleton.mp told
        exact .published
      | cons write more => cases told
    | returnTrue =>
      cases List.mem_singleton.mp told
      exact .tried
  | @release ticket after pc =>
    rw [pc]
    cases after with
    | done value' =>
      cases List.mem_singleton.mp told
      exact .released
    | drain change count => cases told
  | giveUpHead pc =>
    rw [pc]
    cases List.mem_singleton.mp told
    exact .full
  | giveUpTail pc =>
    rw [pc]
    cases List.mem_singleton.mp told
    exact .empty
  | winHead | construct | fetchTail | winTail | read | destroy => cases List.mem_singleton.mp told
  | _ => cases told

/-- A producer that sees its ticket in the counter again has found the queue full. -/
theorem full_of_reload {write : Element → Element}
    (run : Reaches (system capacity moved) (start bytes) s trace) (few : FewTickets trace)
    (call : (callOf thread trace).isSome) (pc : s.pc thread = .reloadHead s.head write) :
    Instant capacity moved bytes thread s trace fun s' =>
      (s'.pc thread).tested = some (.head, s.head) ∧ Full capacity s' s.head := by
  have instant := instant_of_reaches run call
  rw [pc] at instant
  obtain ⟨s', before, after, rfl, run', later, call', quiet, tested, mismatch⟩ := instant
  have there := count_of_instant run' later few tested rfl
  exact ⟨s', before, after, rfl, run', later, call', quiet, tested,
    full_of_mismatch (sound_of_reaches run' few.of_append).orderly (UInt64.toNat_inj.mp there)
      (count_lt_of_few run few .head) mismatch⟩

/-- A consumer that does has found it empty at its front. -/
theorem emptyFront_of_reload {attempt : Attempt} {change : Element → Element} {count : Nat}
    (run : Reaches (system capacity moved) (start bytes) s trace) (few : FewTickets trace)
    (call : (callOf thread trace).isSome)
    (pc : s.pc thread = .reloadTail attempt change s.tail count) :
    Instant capacity moved bytes thread s trace fun s' =>
      (s'.pc thread).tested = some (.tail, s.tail) ∧ EmptyFront s' s.tail := by
  have instant := instant_of_reaches run call
  rw [pc] at instant
  obtain ⟨s', before, after, rfl, run', later, call', quiet, tested, mismatch⟩ := instant
  have there := count_of_instant run' later few tested rfl
  exact ⟨s', before, after, rfl, run', later, call', quiet, tested,
    emptyFront_of_mismatch (sound_of_reaches run' few.of_append).orderly
      (UInt64.toNat_inj.mp there) (count_lt_of_few run few .tail) mismatch⟩

/-- A pop that hands a value back after its release is not one that goes on. -/
theorem manner_done_ne_many (value : Returned) :
    (AfterPop.done value : AfterPop Element).manner ≠ some (.attempt .many) := by
  cases value with
  | bool told => cases told <;> exact fun same => by cases same
  | unit => exact fun same => by cases same
  | count popped => exact fun same => by cases same

/-- A call of `try_emplace` that returns false goes through an instant at which the queue is full,
and one of `try_pop` that does, or a call of `bulk_pop` or `try_consume_all` that returns, through
one at which it is empty at its front. The ticket is the one that has been tested last. -/
theorem reason_of_returned
    (run : Reaches (system capacity moved) (start bytes) s trace) (few : FewTickets trace)
    {op : Op Element} {value : Returned} (call : callOf thread trace = some op)
    (step : system capacity moved s (.step thread) = some (next, events))
    (told : .returned thread value ∈ events) :
    ((∃ element, op = .tryEmplace element) → value = .bool false →
      ∃ ticket, (s.pc thread).tested = some (.head, ticket) ∧
        Instant capacity moved bytes thread s trace fun s' =>
          (s'.pc thread).tested = some (.head, ticket) ∧ Full capacity s' ticket) ∧
    (op = .tryPop ∧ value = .bool false ∨ op = .bulkPop ∨ (∃ f, op = .tryConsumeAll f) →
      ∃ ticket, (s.pc thread).tested = some (.tail, ticket) ∧
        Instant capacity moved bytes thread s trace fun s' =>
          (s'.pc thread).tested = some (.tail, ticket) ∧ EmptyFront s' ticket) := by
  have manner := manner_of_callOf run call
  have returns := returnsAt_of_advance step told
  have calling : (callOf thread trace).isSome := by
    rw [call]
    rfl
  generalize at_pc : s.pc thread = pc at manner returns
  constructor
  · rintro ⟨element, rfl⟩ refused
    cases returns with
    | full => exact ⟨s.head, rfl, full_of_reload run few calling at_pc⟩
    | released =>
      rw [refused] at manner
      cases manner
    | tried => cases refused
    | nothing | published => cases refused
    | empty => cases manner
  · intro gaveUp
    have attempts : ∃ attempt, op.manner = .attempt attempt := by
      rcases gaveUp with ⟨rfl, _⟩ | rfl | ⟨f, rfl⟩
      · exact ⟨.one, rfl⟩
      · exact ⟨.many, rfl⟩
      · exact ⟨.many, rfl⟩
    cases returns with
    | empty => exact ⟨s.tail, rfl, emptyFront_of_reload run few calling at_pc⟩
    | released =>
      rcases gaveUp with ⟨rfl, refused⟩ | rfl | ⟨f, rfl⟩
      · rw [refused] at manner
        cases manner
      · exact absurd manner (manner_done_ne_many _)
      · exact absurd manner (manner_done_ne_many _)
    | tried | nothing | published | full =>
      obtain ⟨attempt, same⟩ := attempts
      rw [same] at manner
      cases manner

section Example

/-- A push into a queue that the push before has filled. -/
def refused : List (Action Bool Nat) :=
  [.call true (.emplace 8), .step true, .step true, .step true, .step true,
    .call false (.tryEmplace 7), .step false, .step false]

def refusal : List (Event Bool Nat) :=
  [.called true (.emplace 8), .claimedHead true 0 1, .constructed true 0 8, .returned true .unit,
    .called false (.tryEmplace 7)]

theorem reason_of_returned_full : ∃ s next,
    execute (system oneSlot id) (start fun _ => 0) refused = some (s, refusal) ∧
    system oneSlot id s (.step false) = some (next, [.returned false (.bool false)]) ∧
      ∃ ticket, (s.pc false).tested = some (.head, ticket) ∧
        Instant oneSlot id (fun _ => 0) false s refusal fun s' =>
          (s'.pc false).tested = some (.head, ticket) ∧ Full oneSlot s' ticket := by
  have traced : ((execute (system oneSlot id) (start fun _ => 0) refused).bind fun reached =>
      (system oneSlot id reached.1 (.step false)).map fun after => (reached.2, after.2)) =
        some (refusal, [.returned false (.bool false)]) := rfl
  obtain ⟨⟨s, trace⟩, executed, traced⟩ := Option.bind_eq_some_iff.mp traced
  obtain ⟨⟨next, events⟩, step, same⟩ := Option.map_eq_some_iff.mp traced
  obtain ⟨rfl, rfl⟩ := Prod.mk.inj same
  exact ⟨s, next, executed, step,
    (reason_of_returned (reaches_of_execute executed) (fun side => by cases side <;> decide) rfl
      step (List.mem_singleton.mpr rfl)).1 ⟨7, rfl⟩ rfl⟩

end Example

end MPMCQueue

end Sheep
