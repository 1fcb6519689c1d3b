/-
This file proves that the queue refines an atomic bounded queue: whatever threads
can see of a run (their calls, the elements handed to them and what the calls
return) they could have seen of a queue whose operations take effect at one
instant each.

A push takes effect when its tickets are claimed, all of them at once, and an
element is taken when both its tickets are claimed. A consumer that has come
early takes its element when the producer claims its ticket, although it still
waits for the turn.
-/

import Sheep.AtomicQueue
import Sheep.QueueRefusals
import Sheep.QueueValues

namespace Sheep

open Turnstile Transitions

namespace MPMCQueue

variable {Thread Element : Type} {capacity : Capacity} {s next : State Thread Element}
  {thread : Thread} {events trace : List (Event Thread Element)}

/-! ### What the atomic queue sees -/

def Returned.reply : Returned → AtomicQueue.Reply
  | .unit => .unit
  | .bool value => .bool value
  | .count value => .count value

def Op.request : Op Element → AtomicQueue.Request Element
  | .emplace element => .push [fun _ => element]
  | .emplaceWith f => .push [f]
  | .bulkPush elements => .push (elements.map fun element _ => element)
  | .tryEmplace element => .tryPush fun _ => element
  | .pop => .pop
  | .tryPop => .tryPop .one
  | .bulkPop => .tryPop .all
  | .consume _ => .pop
  | .tryConsumeAll _ => .tryPop .all

/-- Tickets, slots and destructions are not seen. -/
def Event.observed : Event Thread Element → Option (AtomicQueue.Event Thread Element)
  | .called thread op => some (.called thread op.request)
  | .read thread _ element => some (.handed thread element)
  | .returned thread value => some (.returned thread value.reply)
  | _ => none

def observed (trace : List (Event Thread Element)) : List (AtomicQueue.Event Thread Element) :=
  trace.filterMap Event.observed

theorem observed_append (trace events : List (Event Thread Element)) :
    observed (trace ++ events) = observed trace ++ observed events := List.filterMap_append

def Attempt.demand : Attempt → AtomicQueue.Demand
  | .one => .one
  | .many => .all

def AfterPush.reply : AfterPush Element → AtomicQueue.Reply
  | .bulk _ => .unit
  | .returnTrue => .bool true

def AfterPop.onward : AfterPop Element → AtomicQueue.Onward
  | .done value => .answer value.reply
  | .drain _ count => .again (count + 1)

/-- Where a thread stands in the atomic queue. A ticket of the tail below `taken` has got its
element, also while its thread still waits for the turn. -/
def Pc.view (value : Nat → Element) (taken : Nat) (reason : Bool) :
    Pc Element → AtomicQueue.Pc Element
  | .idle => .idle
  | .fetchHead writes => .pushing writes
  | .awaitFree ticket _ rest => .pushed (ticket.toNat + 1 + rest.length) .unit
  | .loadHead write => .tryPushing write reason
  | .testFree _ write => .tryPushing write reason
  | .casHead _ write => .tryPushing write reason
  | .reloadHead _ write => .tryPushing write reason
  | .construct ticket _ after => .pushed (ticket.toNat + 1 + after.left) after.reply
  | .publish ticket after => .pushed (ticket.toNat + 1 + after.left) after.reply
  | .fetchTail _ => .popping
  | .awaitFull ticket _ =>
      if ticket.toNat < taken then .holding (value ticket.toNat) (.answer .unit) else .popping
  | .loadTail attempt _ => .trying attempt.demand 0 reason
  | .testFull attempt _ _ count => .trying attempt.demand count reason
  | .casTail attempt _ _ count => .trying attempt.demand count reason
  | .reloadTail attempt _ _ count => .trying attempt.demand count reason
  | .read ticket _ after => .holding (value ticket.toNat) after.onward
  | .destroy _ after => after.onward.pc reason
  | .release _ after => after.onward.pc reason

/-- The thread has failed its test, and will give up if the counter stays. -/
def Pc.Rejected (s : State Thread Element) : Pc Element → Prop
  | .reloadHead ticket _ => s.head = ticket
  | .reloadTail _ _ ticket _ => s.tail = ticket
  | _ => False

theorem request_entry (moved : Element → Element) (op : Op Element) (value : Nat → Element)
    (taken : Nat) : op.request.entry = (op.entry moved).view value taken false := by
  cases op <;> rfl

/-! ### The simulation -/

/-- The atomic queue holds the values of the tickets of the head from the number of elements that
have been taken on, and every thread is as far in its call. -/
structure Depicts (value : Nat → Element) (s : State Thread Element)
    (a : AtomicQueue.State Thread Element) : Prop where
  queue : a.queue = (List.range' a.taken (s.head.toNat - a.taken)).map value
  pc : ∀ thread, ∃ reason, a.pc thread = (s.pc thread).view value a.taken reason ∧
    ((s.pc thread).Rejected s → reason = true)

/-- Elements are taken as soon as both their tickets have been claimed. -/
structure Related (value : Nat → Element) (s : State Thread Element)
    (a : AtomicQueue.State Thread Element) : Prop where
  depicts : Depicts value s a
  taken : a.taken = min s.head.toNat s.tail.toNat

/-- A thread that waits for the turn of a ticket of the tail. -/
def Pc.awaits : Pc Element → Option UInt64
  | .awaitFull ticket _ => some ticket
  | _ => none

/-- Only who waits for an element notices that one has been taken. -/
theorem view_taken {pc : Pc Element} {value : Nat → Element} {taken : Nat} {reason : Bool}
    (other : ∀ ticket, pc.awaits = some ticket → ticket.toNat ≠ taken) :
    pc.view value (taken + 1) reason = pc.view value taken reason := by
  cases pc with
  | awaitFull ticket change =>
    have different := other ticket rfl
    rw [Pc.view, Pc.view]
    by_cases less : ticket.toNat < taken
    · rw [if_pos less, if_pos (by omega)]
    · rw [if_neg less, if_neg (by omega)]
  | _ => rfl

theorem range'_head {first last : Nat} (less : first < last) :
    List.range' first (last - first) =
      first :: List.range' (first + 1) (last - (first + 1)) := by
  obtain ⟨more, rfl⟩ := Nat.exists_eq_add_of_lt less
  have length : first + more + 1 - first = (first + more + 1 - (first + 1)) + 1 := by omega
  rw [length, List.range'_succ]

/-! ### Turns and tickets -/

theorem holds_of_awaits {pc : Pc Element} {ticket : UInt64} (awaits : pc.awaits = some ticket) :
    pc.Holds .tail ticket.toNat := by
  cases pc with
  | awaitFull i change =>
    cases awaits
    exact Holds.of_held (rfl : _ = some (_, _, 0 + 1)) ticket.toNat_lt
  | _ => cases awaits

section Tickets

variable (orderly : Orderly (s.board capacity))
include orderly

/-- A slot that has come to the turn of a consumer was left by its producer. -/
theorem lt_head_of_turn {ticket : UInt64}
    (turn : (s.slots (getSlot capacity ticket)).turn.toNat =
      (pass capacity .tail ticket.toNat).turn) : ticket.toNat < s.head.toNat := by
  by_contra ahead
  have early := turn_le_of_unclaimed orderly (Nat.le_of_not_lt ahead : s.count .head ≤ _)
  rw [turn, turn_pass_tail, turn_pass_head] at early
  omega

/-- A slot that has come to the turn of a producer was left by the consumer one lap before. -/
theorem lt_tail_of_turn {ticket : UInt64}
    (turn : (s.slots (getSlot capacity ticket)).turn.toNat =
      (pass capacity .head ticket.toNat).turn) :
    ticket.toNat < s.tail.toNat + capacity.value.toNat := by
  by_contra far
  have bounded := ticket.toNat_lt
  have lap : capacity.value.toNat ≤ ticket.toNat := by omega
  obtain ⟨place, turns⟩ := pass_previous .tail lap
  have unclaimed : s.count .tail ≤ ticket.toNat - capacity.value.toNat := by
    rw [State.count]
    omega
  have early := turn_le_of_count_le orderly (by omega) unclaimed
  have parity : Side.tail.parity = 1 := rfl
  rw [place, turn, turn_pass_head] at early
  omega

/-- A ticket of the tail that has no producer yet has a thread that waits. -/
theorem exists_waiting {ticket : Nat} (claimed : ticket < s.tail.toNat)
    (ahead : s.head.toNat ≤ ticket) :
    ∃ thread i, (s.pc thread).awaits = some i ∧ i.toNat = ticket := by
  have small : ticket < 2 ^ 64 := lt_trans claimed s.tail.toNat_lt
  have unclaimed : s.count .head ≤ ticket := ahead
  have early := turn_le_of_count_le orderly small unclaimed
  rcases orderly.issued_kept (pass capacity .tail ticket) ⟨.tail, ticket, claimed, rfl⟩ with
    passed | ⟨thread, side, ticket', holds, same⟩
  · have late : (pass capacity .tail ticket).turn <
        (s.slots (pass capacity .tail ticket).place).turn.toNat := passed
    have order : (pass capacity .head ticket).turn ≤ (pass capacity .tail ticket).turn :=
      Nat.add_le_add_left (Nat.zero_le _) _
    exact absurd (lt_of_lt_of_le late early) (Nat.not_lt.mpr order)
  · obtain ⟨rfl, rfl⟩ := pass_injective small holds.1 same
    have outside (window : (s.pc thread).window = some (.tail, ticket)) : False := by
      have good : (s.slots (pass capacity .tail ticket).place).turn.toNat =
          (pass capacity .tail ticket).turn :=
        orderly.inside_good thread _ ⟨.tail, ticket, window, rfl⟩
      have order : (pass capacity .head ticket).turn < (pass capacity .tail ticket).turn :=
        Nat.lt_succ_self _
      exact absurd (lt_of_lt_of_le order (good.symm.le.trans early)) (lt_irrefl _)
    obtain ⟨_, first, count, held, low, high⟩ := holds
    cases pc : s.pc thread with
    | awaitFull i change =>
      rw [pc] at held
      cases held
      exact ⟨thread, i, by rw [pc]; rfl, by omega⟩
    | read i change after | destroy i after | release i after =>
      rw [pc] at held outside
      cases held
      have same : ticket = i.toNat := by omega
      subst same
      exact absurd rfl outside
    | _ =>
      rw [pc] at held
      cases held

theorem alone_of_awaits {other : Thread} {ticket : UInt64}
    (first : (s.pc thread).awaits = some ticket) (second : (s.pc other).awaits = some ticket) :
    thread = other :=
  orderly.held_once _ _ _ ⟨_, _, holds_of_awaits first, rfl⟩ ⟨_, _, holds_of_awaits second, rfl⟩

end Tickets

/-- Counters do not go back to a ticket that a thread has seen. -/
theorem rejected_before {pc : Pc Element} (looked : Looked capacity s pc)
    (counts : ∀ side, s.count side ≤ next.count side) (rejected : pc.Rejected next) :
    pc.Rejected s := by
  cases pc with
  | reloadHead ticket write =>
    refine UInt64.toNat_inj.mp (le_antisymm ?_ (looked.tested .head ticket rfl))
    rw [← (rejected : next.head = ticket)]
    exact counts .head
  | reloadTail attempt change ticket count =>
    refine UInt64.toNat_inj.mp (le_antisymm ?_ (looked.tested .tail ticket rfl))
    rw [← (rejected : next.tail = ticket)]
    exact counts .tail
  | _ => exact rejected

theorem busy_onward (onward : AtomicQueue.Onward) (reason : Bool) :
    (onward.pc reason : AtomicQueue.Pc Element).busy = true := by
  cases onward <;> rfl

/-- A thread that holds a ticket is in the middle of a call. -/
theorem busy_of_holds {pc : Pc Element} {side : Side} {ticket : Nat} {value : Nat → Element}
    {taken : Nat} {reason : Bool} (holds : pc.Holds side ticket) :
    (pc.view value taken reason).busy = true := by
  obtain ⟨_, first, count, held, _⟩ := holds
  cases pc with
  | awaitFull i change =>
    rw [Pc.view]
    split <;> rfl
  | destroy i after | release i after => exact busy_onward _ _
  | awaitFree i write rest | construct i write after | publish i after | read i change after => rfl
  | _ => cases held

section Simulation

variable [DecidableEq Thread] {value : Nat → Element} {a a' : AtomicQueue.State Thread Element}

/-- The waiting consumers take the elements that are there, in the order of their tickets. -/
theorem Depicts.drain (depicts : Depicts value s a)
    (few : a.taken ≤ min s.head.toNat s.tail.toNat)
    (waits : ∀ ticket, a.taken ≤ ticket → ticket < min s.head.toNat s.tail.toNat →
      ∃ thread i, (s.pc thread).awaits = some i ∧ i.toNat = ticket)
    (alone : ∀ thread other i, (s.pc thread).awaits = some i → (s.pc other).awaits = some i →
      thread = other) :
    ∃ a', Reaches (AtomicQueue.system capacity.value.toNat) a a' [] ∧ Related value s a' := by
  induction gap : min s.head.toNat s.tail.toNat - a.taken generalizing a with
  | zero => exact ⟨a, .start, depicts, by omega⟩
  | succ more inductionHypothesis =>
    obtain ⟨thread, i, awaits, same⟩ := waits a.taken (le_refl _) (by omega)
    have less : a.taken < s.head.toNat := by omega
    have queue := depicts.queue
    rw [range'_head less, List.map_cons] at queue
    obtain ⟨reason, view, _⟩ := depicts.pc thread
    cases pc : s.pc thread with
    | awaitFull ticket change =>
      rw [pc] at awaits view
      have here : ticket = i := Option.some.inj awaits
      subst here
      have popping : a.pc thread = .popping := by
        rw [view, Pc.view, if_neg (by omega)]
      set b := (a.take ((List.range' (a.taken + 1) (s.head.toNat - (a.taken + 1))).map
        value)).setPc thread (.holding (value a.taken) (.answer .unit)) with defined
      have step : Reaches (AtomicQueue.system capacity.value.toNat) a b [] :=
        AtomicQueue.reaches_dequeue queue popping
      have depicts' : Depicts value s b := by
        refine ⟨rfl, fun other => ?_⟩
        by_cases this : other = thread
        · subst this
          refine ⟨reason, ?_, fun rejected => ?_⟩
          · rw [defined, AtomicQueue.State.setPc_pc_self, pc, Pc.view, same]
            exact (if_pos (Nat.lt_succ_self _)).symm
          · rw [pc] at rejected
            exact absurd rejected id
        · obtain ⟨reason', view', rejected'⟩ := depicts.pc other
          refine ⟨reason', ?_, rejected'⟩
          rw [defined, AtomicQueue.State.setPc_pc_other _ _ this]
          refine view'.trans (view_taken fun ticket' awaits' same' => this ?_).symm
          have one : ticket' = ticket := UInt64.toNat_inj.mp (same'.trans same.symm)
          subst one
          exact alone _ _ _ awaits' (by rw [pc]; rfl)
      obtain ⟨a', later, related⟩ := inductionHypothesis depicts'
        (by show a.taken + 1 ≤ _; omega)
        (fun ticket low high => waits ticket (Nat.le_of_succ_le low) high)
        (by show _ - (a.taken + 1) = more; omega)
      exact ⟨a', step.trans later, related⟩
    | _ =>
      rw [pc] at awaits
      cases awaits

/-- The atomic queue goes on to a state that belongs to the next one, and shows as much. -/
def Follows (capacity : Capacity) (value : Nat → Element) (next : State Thread Element)
    (a : AtomicQueue.State Thread Element) (told : List (AtomicQueue.Event Thread Element)) :
    Prop :=
  ∃ a', Reaches (AtomicQueue.system capacity.value.toNat) a a' told ∧ Related value next a'

theorem Depicts.after (depicts : Depicts value s a)
    (looked : ∀ thread, Looked capacity s (s.pc thread))
    (counts : ∀ side, s.count side ≤ next.count side)
    (others : ∀ other, other ≠ thread → next.pc other = s.pc other)
    (taken : a'.taken = a.taken)
    (queue : a'.queue = (List.range' a.taken (next.head.toNat - a.taken)).map value)
    (others' : ∀ other, other ≠ thread → a'.pc other = a.pc other)
    (here : ∃ reason, a'.pc thread = (next.pc thread).view value a.taken reason ∧
      ((next.pc thread).Rejected next → reason = true)) : Depicts value next a' := by
  refine ⟨by rw [queue, taken], fun other => ?_⟩
  rw [taken]
  by_cases this : other = thread
  · subst this
    exact here
  · rw [others other this, others' other this]
    obtain ⟨reason, view, rejected⟩ := depicts.pc other
    exact ⟨reason, view, fun later => rejected (rejected_before (looked other) counts later)⟩

/-- A step that claims nothing. -/
theorem Related.quiet (related : Related value s a)
    (looked : ∀ thread, Looked capacity s (s.pc thread)) {pc : Pc Element}
    (others : ∀ other, other ≠ thread → next.pc other = s.pc other) (here : next.pc thread = pc)
    (head : next.head = s.head) (tail : next.tail = s.tail)
    {seen : AtomicQueue.Pc Element} {told : List (AtomicQueue.Event Thread Element)}
    (reach : Reaches (AtomicQueue.system capacity.value.toNat) a (a.setPc thread seen) told)
    (reason : Bool) (view : seen = pc.view value a.taken reason)
    (rejected : pc.Rejected next → reason = true) : Follows capacity value next a told := by
  refine ⟨_, reach, ?_, ?_⟩
  · refine related.depicts.after looked (fun side => ?_) others rfl ?_
      (fun other different => AtomicQueue.State.setPc_pc_other _ _ different) ?_
    · cases side
      · exact (congrArg UInt64.toNat head).ge
      · exact (congrArg UInt64.toNat tail).ge
    · rw [head]
      exact related.depicts.queue
    · rw [AtomicQueue.State.setPc_pc_self, here]
      exact ⟨reason, view, rejected⟩
  · rw [head, tail]
    exact related.taken

/-- A step that the atomic queue does not notice. -/
theorem Related.unnoticed (related : Related value s a)
    (looked : ∀ thread, Looked capacity s (s.pc thread)) {pc : Pc Element}
    (others : ∀ other, other ≠ thread → next.pc other = s.pc other) (here : next.pc thread = pc)
    (head : next.head = s.head) (tail : next.tail = s.tail)
    (view : ∀ reason, pc.view value a.taken reason =
      (s.pc thread).view value a.taken reason)
    (rejected : ¬ pc.Rejected next) : Follows capacity value next a [] := by
  obtain ⟨reason, seen, _⟩ := related.depicts.pc thread
  have still : Reaches (AtomicQueue.system capacity.value.toNat) a
      (a.setPc thread (a.pc thread)) [] := by
    rw [AtomicQueue.State.setPc_same]
    exact .start
  refine related.quiet looked others here head tail still reason ?_ fun given =>
    absurd given rejected
  rw [view]
  exact seen

/-- Tickets of the head are claimed: the elements enter, and consumers that have waited for them
take them. -/
theorem Related.claim (related : Related value s a) (sound : Sound capacity s trace)
    (orderly : Orderly (next.board capacity)) {more : Nat}
    (head : next.head.toNat = s.head.toNat + more) (tail : next.tail = s.tail)
    (others : ∀ other, other ≠ thread → next.pc other = s.pc other)
    (busy : (s.pc thread).awaits = none) {pc : AtomicQueue.Pc Element}
    {told : List (AtomicQueue.Event Thread Element)}
    (reach : Reaches (AtomicQueue.system capacity.value.toNat) a
      ((a.put ((List.range' s.head.toNat more).map value)).setPc thread pc) told)
    (view : pc = (next.pc thread).view value a.taken false)
    (rejected : ¬ (next.pc thread).Rejected next) : Follows capacity value next a told := by
  have taken := related.taken
  set b := (a.put ((List.range' s.head.toNat more).map value)).setPc thread pc with defined
  have depicts : Depicts value next b := by
    refine related.depicts.after sound.looked (fun side => ?_) others rfl ?_
      (fun other different => AtomicQueue.State.setPc_pc_other _ _ different) ?_
    · cases side
      · show s.head.toNat ≤ next.head.toNat
        omega
      · exact (congrArg UInt64.toNat tail).ge
    · show a.queue ++ _ = _
      have joined := @List.range'_append_1 a.taken (s.head.toNat - a.taken) more
      have start : a.taken + (s.head.toNat - a.taken) = s.head.toNat := by omega
      have length : s.head.toNat - a.taken + more = next.head.toNat - a.taken := by omega
      rw [start, length] at joined
      rw [related.depicts.queue, ← List.map_append, joined]
    · refine ⟨false, ?_, fun given => absurd given rejected⟩
      rw [defined, AtomicQueue.State.setPc_pc_self]
      exact view
  have same : b.taken = a.taken := rfl
  have few : b.taken ≤ min next.head.toNat next.tail.toNat := by
    rw [same, tail]
    omega
  have waits (ticket : Nat) (low : b.taken ≤ ticket)
      (high : ticket < min next.head.toNat next.tail.toNat) :
      ∃ thread i, (next.pc thread).awaits = some i ∧ i.toNat = ticket := by
    rw [tail] at high
    rw [same] at low
    obtain ⟨waiting, i, awaits, equal⟩ := exists_waiting sound.orderly
      (lt_of_lt_of_le high (Nat.min_le_right _ _)) (by omega)
    have different : waiting ≠ thread := by
      rintro rfl
      rw [busy] at awaits
      cases awaits
    exact ⟨waiting, i, by rw [others waiting different]; exact awaits, equal⟩
  obtain ⟨a', later, following⟩ :
      ∃ a', Reaches (AtomicQueue.system capacity.value.toNat) b a' [] ∧ Related value next a' :=
    depicts.drain few waits fun _ _ _ => alone_of_awaits orderly
  exact ⟨a', (List.append_nil told) ▸ reach.trans later, following⟩

/-! ### One step -/

/-- What the producers find, so that they write the values of their tickets. -/
theorem exists_found {writes : List (Element → Element)} {first : Nat}
    (each : ∀ k write, writes[k]? = some write → ∃ found, value (first + k) = write found) :
    ∃ found, found.length = writes.length ∧
      AtomicQueue.written writes found = (List.range' first writes.length).map value := by
  induction writes generalizing first with
  | nil => exact ⟨[], rfl, rfl⟩
  | cons write rest inductionHypothesis =>
    obtain ⟨here, same⟩ : ∃ found, value first = write found := each 0 write rfl
    have later (k : Nat) (write : Element → Element) (at_k : rest[k]? = some write) :
        ∃ found, value (first + 1 + k) = write found := by
      rw [Nat.add_right_comm]
      exact each (k + 1) write at_k
    obtain ⟨found, length, wrote⟩ := inductionHypothesis later
    refine ⟨here :: found, congrArg Nat.succ length, ?_⟩
    rw [List.length_cons, List.range'_succ, List.map_cons, ← wrote, same]
    rfl

omit [DecidableEq Thread] in
theorem Related.numbered (related : Related value s a) :
    a.taken + a.queue.length = s.head.toNat := by
  have taken := related.taken
  rw [related.depicts.queue, List.length_map, List.length_range']
  omega

theorem follows_fetchHead (related : Related value s a) (sound : Sound capacity s trace)
    {writes : List (Element → Element)} (pc : s.pc thread = .fetchHead writes)
    (small : s.head.toNat + writes.length < 2 ^ 63)
    (next_eq : next = { s with head := s.head + UInt64.ofNat writes.length }.setPc thread
      ((AfterPush.bulk writes).next thread s.head).1)
    (orderly : Orderly (next.board capacity))
    (owed : ∀ ticket write, (next.pc thread).Owes ticket write → ∃ found,
      value ticket = write found) :
    Follows capacity value next a
      (observed (.claimedHead thread s.head writes.length ::
        ((AfterPush.bulk writes).next thread s.head).2)) := by
  obtain ⟨reason, view, _⟩ := related.depicts.pc thread
  rw [pc, Pc.view] at view
  have head : next.head.toNat = s.head.toNat + writes.length := by
    rw [next_eq]
    exact toNat_add_ofNat small
  have here : next.pc thread = ((AfterPush.bulk writes).next thread s.head).1 := by
    rw [next_eq, State.setPc_pc_self]
  have others (other : Thread) (different : other ≠ thread) : next.pc other = s.pc other := by
    rw [next_eq]
    exact State.setPc_pc_other _ _ _ different
  have each (k : Nat) (write : Element → Element) (at_k : writes[k]? = some write) :
      ∃ found, value (s.head.toNat + k) = write found := by
    have less := (List.getElem?_eq_some_iff.mp at_k).1
    refine owed _ _ ?_
    rw [here]
    cases writes with
    | nil => cases at_k
    | cons first rest =>
      refine ⟨by omega, Nat.le_add_right _ _, ?_⟩
      show (first :: rest)[s.head.toNat + k - s.head.toNat]? = _
      rw [Nat.add_sub_cancel_left]
      exact at_k
  obtain ⟨found, length, wrote⟩ := exists_found each
  have enter : Reaches (AtomicQueue.system capacity.value.toNat) a
      ((a.put ((List.range' s.head.toNat writes.length).map value)).setPc thread
        (AtomicQueue.pushed (s.head.toNat + writes.length) writes)) [] := by
    rw [← wrote, ← related.numbered]
    exact AtomicQueue.reaches_enqueue view length
  have tail : next.tail = s.tail := by
    rw [next_eq]
    rfl
  cases writes with
  | nil =>
    exact related.claim sound orderly head tail others (by rw [pc]; rfl)
      (AtomicQueue.reaches_return enter) (by rw [here]; rfl) (by rw [here]; exact id)
  | cons write rest =>
    refine related.claim sound orderly head tail others (by rw [pc]; rfl) enter ?_
      (by rw [here]; exact id)
    rw [here]
    show AtomicQueue.Pc.pushed (s.head.toNat + (rest.length + 1)) .unit =
      .pushed (s.head.toNat + 1 + rest.length) .unit
    rw [Nat.add_assoc, Nat.add_comm 1]

theorem follows_winHead (related : Related value s a) (sound : Sound capacity s trace)
    {write : Element → Element} (pc : s.pc thread = .casHead s.head write)
    (small : s.head.toNat + 1 < 2 ^ 63)
    (next_eq : next = { s with head := s.head + 1 }.setPc thread
      (.construct s.head write .returnTrue))
    (orderly : Orderly (next.board capacity))
    (owed : ∀ ticket write, (next.pc thread).Owes ticket write → ∃ found,
      value ticket = write found) : Follows capacity value next a [] := by
  obtain ⟨reason, view, _⟩ := related.depicts.pc thread
  rw [pc, Pc.view] at view
  have here : next.pc thread = .construct s.head write .returnTrue := by
    rw [next_eq, State.setPc_pc_self]
  obtain ⟨found, wrote⟩ := owed _ _ (by rw [here]; exact owes_first rfl)
  have taken := related.taken
  have numbered := related.numbered
  have behind := lt_tail_of_turn sound.orderly
    (good_of_matched sound.orderly (sound.looked thread) (by rw [pc]; rfl) rfl)
  have positive := capacity.pos
  have enter : Reaches (AtomicQueue.system capacity.value.toNat) a
      ((a.put ((List.range' s.head.toNat 1).map value)).setPc thread
        (.pushed (s.head.toNat + 1) (.bool true))) [] := by
    rw [List.range'_one, List.map_singleton, wrote, ← numbered]
    exact AtomicQueue.reaches_tryEnqueue view (by omega)
  refine related.claim sound orderly ?_ (by rw [next_eq]; rfl) (fun other different => ?_)
    (by rw [pc]; rfl) enter (by rw [here]; rfl) (by rw [here]; exact id)
  · rw [next_eq]
    exact toNat_add_one small
  · rw [next_eq]
    exact State.setPc_pc_other _ _ _ different

/-- A consumer that has come for the next ticket takes its element when there is one. -/
theorem follows_fetchTail (related : Related value s a) (sound : Sound capacity s trace)
    {change : Element → Element} (pc : s.pc thread = .fetchTail change)
    (small : s.tail.toNat + 1 < 2 ^ 63)
    (next_eq : next = { s with tail := s.tail + 1 }.setPc thread (.awaitFull s.tail change))
    (orderly : Orderly (next.board capacity)) : Follows capacity value next a [] := by
  obtain ⟨reason, view, _⟩ := related.depicts.pc thread
  rw [pc, Pc.view] at view
  have taken := related.taken
  have here : next.pc thread = .awaitFull s.tail change := by
    rw [next_eq, State.setPc_pc_self]
  have head : next.head = s.head := by
    rw [next_eq]
    rfl
  have tail : next.tail.toNat = s.tail.toNat + 1 := by
    rw [next_eq]
    exact toNat_add_one small
  have others (other : Thread) (different : other ≠ thread) : next.pc other = s.pc other := by
    rw [next_eq]
    exact State.setPc_pc_other _ _ _ different
  have depicts : Depicts value next a := by
    refine related.depicts.after sound.looked (fun side => ?_) others rfl ?_ (fun _ _ => rfl)
      ⟨false, ?_, ?_⟩
    · cases side
      · exact (congrArg UInt64.toNat head).ge
      · exact (Nat.le_succ _).trans tail.ge
    · rw [head]
      exact related.depicts.queue
    · rw [here, view, Pc.view, if_neg (by omega)]
    · rw [here]
      exact fun rejected => absurd rejected id
  refine depicts.drain ?_ (fun ticket low high => ⟨thread, s.tail, ?_, ?_⟩)
    fun _ _ _ => alone_of_awaits orderly
  · rw [head, tail]
    omega
  · rw [here]
    rfl
  · rw [head, tail] at high
    omega

theorem onward_after (attempt : Attempt) (change : Element → Element) (count : Nat) :
    (attempt.after change count).onward = attempt.demand.onward count := by
  cases attempt <;> rfl

theorem follows_winTail (related : Related value s a) (sound : Sound capacity s trace)
    {attempt : Attempt} {change : Element → Element} {count : Nat}
    (pc : s.pc thread = .casTail attempt change s.tail count)
    (small : s.tail.toNat + 1 < 2 ^ 63)
    (next_eq : next = { s with tail := s.tail + 1 }.setPc thread
      (.read s.tail change (attempt.after change count))) : Follows capacity value next a [] := by
  obtain ⟨reason, view, _⟩ := related.depicts.pc thread
  rw [pc, Pc.view] at view
  have less := lt_head_of_turn sound.orderly
    (good_of_matched sound.orderly (sound.looked thread) (by rw [pc]; rfl) rfl)
  have taken : a.taken = s.tail.toNat := by
    rw [related.taken]
    omega
  have queue := related.depicts.queue
  rw [range'_head (by omega), List.map_cons] at queue
  have here : next.pc thread = .read s.tail change (attempt.after change count) := by
    rw [next_eq, State.setPc_pc_self]
  have tail : next.tail.toNat = s.tail.toNat + 1 := by
    rw [next_eq]
    exact toNat_add_one small
  have head : next.head = s.head := by
    rw [next_eq]
    rfl
  refine ⟨_, AtomicQueue.reaches_tryDequeue queue view, ⟨?_, fun other => ?_⟩, ?_⟩
  · rw [head]
    rfl
  · by_cases this : other = thread
    · subst this
      refine ⟨false, ?_, fun rejected => ?_⟩
      · rw [AtomicQueue.State.setPc_pc_self, here, Pc.view, onward_after, taken]
      · rw [here] at rejected
        exact absurd rejected id
    · obtain ⟨reason', view', rejected⟩ := related.depicts.pc other
      have others : next.pc other = s.pc other := by
        rw [next_eq]
        exact State.setPc_pc_other _ _ _ this
      refine ⟨reason', ?_, fun later => rejected (rejected_before (sound.looked other)
        (fun side => ?_) (others ▸ later))⟩
      · rw [AtomicQueue.State.setPc_pc_other _ _ this, others]
        refine view'.trans (view_taken fun ticket awaits same => ?_).symm
        have claimed := lt_count_of_holds sound.orderly (holds_of_awaits awaits)
        rw [State.count] at claimed
        omega
      · cases side
        · exact (congrArg UInt64.toNat head).ge
        · exact (Nat.le_succ _).trans tail.ge
  · rw [head, tail]
    show a.taken + 1 = _
    omega

/-- A push has returned when all its elements were among the first of the queue. -/
theorem follows_publish (related : Related value s a) (sound : Sound capacity s trace)
    (few : FewTickets trace) {ticket : UInt64} {after : AfterPush Element}
    (pc : s.pc thread = .publish ticket after) (head : next.head = s.head)
    (tail : next.tail = s.tail) (others : ∀ other, other ≠ thread → next.pc other = s.pc other)
    (here : next.pc thread = (after.next thread (ticket + 1)).1) :
    Follows capacity value next a (observed (after.next thread (ticket + 1)).2) := by
  obtain ⟨turn, small⟩ := turn_of_window sound few
    (by rw [pc]; rfl : (s.pc thread).window = some (.head, ticket.toNat))
  have near := lt_tail_of_turn sound.orderly turn
  have held : (s.pc thread).held = some (.head, ticket.toNat, after.left + 1) := by
    rw [pc]
    rfl
  have claimed : ticket.toNat < s.count .head :=
    lt_count_of_holds sound.orderly (Holds.of_held held ticket.toNat_lt)
  rw [State.count] at claimed
  have taken := related.taken
  obtain ⟨reason, view, _⟩ := related.depicts.pc thread
  have returns (last : after.left = 0) : Reaches (AtomicQueue.system capacity.value.toNat) a
      (a.setPc thread .idle) [.returned thread after.reply] := by
    rw [pc, Pc.view, last] at view
    exact AtomicQueue.reaches_return (AtomicQueue.reaches_settle view (by omega))
  cases after with
  | returnTrue =>
    exact related.quiet sound.looked others here head tail (returns rfl) reason rfl
      fun given => absurd given id
  | bulk rest =>
    cases rest with
    | nil =>
      exact related.quiet sound.looked others here head tail (returns rfl) reason rfl
        fun given => absurd given id
    | cons write rest =>
      refine related.unnoticed sound.looked others here head tail (fun reason => ?_) id
      rw [pc]
      show AtomicQueue.Pc.pushed ((ticket + 1).toNat + 1 + rest.length) .unit =
        .pushed (ticket.toNat + 1 + (rest.length + 1)) .unit
      rw [toNat_add_one small, Nat.add_right_comm _ 1, Nat.add_assoc (ticket.toNat + 1)]

omit [DecidableEq Thread] in
/-- Somebody who has not stored the turn behind a ticket is in the middle of a call. -/
theorem busy_of_pending (related : Related value s a) {side : Side} {ticket : Nat}
    (none : ∀ side ticket, ¬ (s.pc thread).Holds side ticket) (pending : Pending s side ticket) :
    s.count side ≤ ticket ∨ ∃ other, other ≠ thread ∧ (a.pc other).busy = true := by
  refine pending.imp_right fun ⟨other, holds⟩ => ⟨other, ?_, ?_⟩
  · rintro rfl
    exact none _ _ holds
  · obtain ⟨reason, view, _⟩ := related.depicts.pc other
    rw [view]
    exact busy_of_holds holds

theorem follows_missFree (related : Related value s a) (sound : Sound capacity s trace)
    (few : FewTickets trace) {ticket : UInt64} {write : Element → Element}
    (pc : s.pc thread = .testFree ticket write)
    (mismatch : freeTurn capacity ticket ≠ (s.slots (getSlot capacity ticket)).turn) :
    Follows capacity value (s.setPc thread (.reloadHead ticket write)) a [] := by
  obtain ⟨reason, view, _⟩ := related.depicts.pc thread
  rw [pc, Pc.view] at view
  have others (other : Thread) (different : other ≠ thread) :
      (s.setPc thread (.reloadHead ticket write)).pc other = s.pc other :=
    State.setPc_pc_other _ _ _ different
  by_cases current : s.head = ticket
  · have small : ticket.toNat < 2 ^ 63 := current ▸ sound.count_lt few .head
    have full := full_of_mismatch sound.orderly current small mismatch
    have lap : capacity.value.toNat ≤ ticket.toNat := UInt64.le_iff_toNat_le.mp full.lap
    have equal : s.head.toNat = ticket.toNat := congrArg UInt64.toNat current
    have numbered := related.numbered
    have taken := related.taken
    have seen : Reaches (AtomicQueue.system capacity.value.toNat) a
        (a.setPc thread (.tryPushing write true)) [] := by
      refine AtomicQueue.reaches_look (by rw [view]; rfl) ?_
      refine (busy_of_pending related (fun _ _ => ?_) full.unreleased).imp_left fun unclaimed => ?_
      · rw [pc]
        exact not_holds_of_none rfl
      · have early : s.tail.toNat ≤ ticket.toNat - capacity.value.toNat := unclaimed
        rw [view]
        exact if_neg (by omega)
    exact related.quiet sound.looked others (State.setPc_pc_self _ _ _) rfl rfl seen true rfl
      fun _ => rfl
  · exact related.unnoticed sound.looked others (State.setPc_pc_self _ _ _) rfl rfl
      (fun reason => by rw [pc]; rfl) current

theorem follows_missFull (related : Related value s a) (sound : Sound capacity s trace)
    (few : FewTickets trace) {attempt : Attempt} {change : Element → Element} {ticket : UInt64}
    {count : Nat} (pc : s.pc thread = .testFull attempt change ticket count)
    (mismatch : fullTurn capacity ticket ≠ (s.slots (getSlot capacity ticket)).turn) :
    Follows capacity value (s.setPc thread (.reloadTail attempt change ticket count)) a [] := by
  obtain ⟨reason, view, _⟩ := related.depicts.pc thread
  rw [pc, Pc.view] at view
  have others (other : Thread) (different : other ≠ thread) :
      (s.setPc thread (.reloadTail attempt change ticket count)).pc other = s.pc other :=
    State.setPc_pc_other _ _ _ different
  by_cases current : s.tail = ticket
  · have small : ticket.toNat < 2 ^ 63 := current ▸ sound.count_lt few .tail
    have empty := emptyFront_of_mismatch sound.orderly current small mismatch
    have equal : s.tail.toNat = ticket.toNat := congrArg UInt64.toNat current
    have numbered := related.numbered
    have taken := related.taken
    have seen : Reaches (AtomicQueue.system capacity.value.toNat) a
        (a.setPc thread (.trying attempt.demand count true)) [] := by
      refine AtomicQueue.reaches_look (by rw [view]; rfl) ?_
      refine (busy_of_pending related (fun _ _ => ?_) empty.unpublished).imp_left
        fun unclaimed => ?_
      · rw [pc]
        exact not_holds_of_none rfl
      · have early : s.head.toNat ≤ ticket.toNat := unclaimed
        rw [view]
        exact if_neg (by omega)
    exact related.quiet sound.looked others (State.setPc_pc_self _ _ _) rfl rfl seen true rfl
      fun _ => rfl
  · exact related.unnoticed sound.looked others (State.setPc_pc_self _ _ _) rfl rfl
      (fun reason => by rw [pc]; rfl) current

theorem reply_giveUp (attempt : Attempt) (count : Nat) :
    (attempt.giveUp count).reply = attempt.demand.refusal count := by
  cases attempt <;> rfl

/-- A consumer gives up its slot and goes on. -/
theorem follows_release (related : Related value s a)
    (looked : ∀ thread, Looked capacity s (s.pc thread)) {ticket : UInt64}
    {after : AfterPop Element} (pc : s.pc thread = .release ticket after)
    (head : next.head = s.head) (tail : next.tail = s.tail)
    (others : ∀ other, other ≠ thread → next.pc other = s.pc other)
    (here : next.pc thread = (after.next thread ticket).1) :
    Follows capacity value next a (observed (after.next thread ticket).2) := by
  obtain ⟨reason, view, _⟩ := related.depicts.pc thread
  rw [pc, Pc.view] at view
  cases after with
  | done returned =>
    exact related.quiet looked others here head tail (AtomicQueue.reaches_leave view) reason rfl
      fun given => absurd given id
  | drain change count =>
    exact related.unnoticed looked others here head tail (fun reason => by rw [pc]; rfl) id

/-- Every step of a thread is one of the atomic queue, or none, or more than one. -/
theorem follows_advance (related : Related value s a) (sound : Sound capacity s trace)
    (few : FewTickets (trace ++ events))
    (step : advance capacity s thread (s.pc thread) = some (next, events))
    (owed : ∀ ticket write, (next.pc thread).Owes ticket write → ∃ found,
      value ticket = write found)
    (read : ∀ consumer ticket element, .read consumer ticket element ∈ events →
      element = value ticket.toNat) : Follows capacity value next a (observed events) := by
  have small := sound.small few
  have orderly := (sound_advance sound step few).orderly
  have before := few.of_append
  have looked := sound.looked
  obtain ⟨reason, view, rejected⟩ := related.depicts.pc thread
  have goes {pc : Pc Element} (other : Thread) (different : other ≠ thread) :
      (s.setPc thread pc).pc other = s.pc other := State.setPc_pc_other _ _ _ different
  have touches {pc : Pc Element} {index : UInt64} {slot : Slot Element} (other : Thread)
      (different : other ≠ thread) :
      ((s.setSlot index slot).setPc thread pc).pc other = s.pc other :=
    State.setPc_pc_other _ _ _ different
  cases advances_of_advance step with
  | @fetchHead writes pc =>
    have bounded := small .head
    rw [claims_cons, claims_pushNext, List.append_nil, Event.claimed, if_pos rfl,
      List.length_range'] at bounded
    exact follows_fetchHead related sound pc bounded rfl orderly owed
  | winHead pc => exact follows_winHead related sound pc (small .head) rfl orderly owed
  | fetchTail pc => exact follows_fetchTail related sound pc (small .tail) rfl orderly
  | winTail pc => exact follows_winTail related sound pc (small .tail) rfl
  | missFree pc mismatch => exact follows_missFree related sound before pc mismatch
  | missFull pc mismatch => exact follows_missFull related sound before pc mismatch
  | publish pc =>
    exact follows_publish related sound before pc rfl rfl touches (State.setPc_pc_self _ _ _)
  | release pc =>
    exact follows_release related looked pc rfl rfl touches (State.setPc_pc_self _ _ _)
  | spinFree pc mismatch | spinFull pc mismatch => exact ⟨a, .start, related⟩
  | giveUpHead pc =>
    rw [pc] at rejected view
    rw [rejected rfl, Pc.view] at view
    exact related.quiet looked goes (State.setPc_pc_self _ _ _) rfl rfl
      (AtomicQueue.reaches_return (AtomicQueue.reaches_refuse_push view)) reason rfl
      fun given => absurd given id
  | @giveUpTail attempt change count pc =>
    rw [pc] at rejected view
    rw [rejected rfl, Pc.view] at view
    have returns : Reaches (AtomicQueue.system capacity.value.toNat) a (a.setPc thread .idle)
        [.returned thread (attempt.giveUp count).reply] := by
      rw [reply_giveUp]
      exact AtomicQueue.reaches_return (AtomicQueue.reaches_refuse_pop view)
    exact related.quiet looked goes (State.setPc_pc_self _ _ _) rfl rfl returns reason rfl
      fun given => absurd given id
  | @read ticket change after pc =>
    rw [pc, Pc.view] at view
    rw [read _ _ _ List.mem_cons_self]
    exact related.quiet looked touches (State.setPc_pc_self _ _ _) rfl rfl
      (AtomicQueue.reaches_hand view) false rfl fun given => absurd given id
  | @enterFull ticket change pc matched =>
    refine related.unnoticed looked goes (State.setPc_pc_self _ _ _) rfl rfl (fun reason => ?_) id
    -- the producer of the ticket is done, so the element has been taken
    have claimed := lt_count_of_holds sound.orderly
      (holds_of_awaits (by rw [pc]; rfl : (s.pc thread).awaits = some ticket))
    have bounded := sound.count_lt before .tail
    rw [State.count] at claimed bounded
    have turn : (s.slots (getSlot capacity ticket)).turn.toNat =
        (pass capacity .tail ticket.toNat).turn := by
      rw [← matched, toNat_fullTurn capacity (by omega), turn_pass_tail]
    have less := lt_head_of_turn sound.orderly turn
    have taken := related.taken
    rw [pc, Pc.view, Pc.view, if_pos (by omega)]
    rfl
  | enterFree pc matched =>
    exact related.unnoticed looked goes (State.setPc_pc_self _ _ _) rfl rfl
      (fun reason => by rw [pc]; rfl) id
  | loadHead pc | matchFree pc | loseHead pc | retryHead pc | loadTail pc | matchFull pc
  | loseTail pc | retryTail pc =>
    exact related.unnoticed looked goes (State.setPc_pc_self _ _ _) rfl rfl
      (fun reason => by rw [pc]; rfl) id
  | construct pc | destroy pc =>
    exact related.unnoticed looked touches (State.setPc_pc_self _ _ _) rfl rfl
      (fun reason => by rw [pc]; rfl) id

/-! ### Whole runs -/

variable {moved : Element → Element} {bytes : UInt64 → Element}

/-- A call is seen when it is made. -/
theorem follows_call (related : Related value s a)
    (looked : ∀ thread, Looked capacity s (s.pc thread)) (op : Op Element)
    (idle : s.pc thread = .idle) :
    Follows capacity value (s.setPc thread (op.entry moved)) a
      [.called thread op.request] := by
  obtain ⟨reason, view, _⟩ := related.depicts.pc thread
  rw [idle, Pc.view] at view
  have others (other : Thread) (different : other ≠ thread) :
      (s.setPc thread (op.entry moved)).pc other = s.pc other :=
    State.setPc_pc_other _ _ _ different
  refine related.quiet looked others (State.setPc_pc_self _ _ _) rfl rfl
    (AtomicQueue.reaches_call view) false (request_entry moved op value a.taken) fun rejected => ?_
  cases op <;> exact absurd rejected id

omit [DecidableEq Thread] in
theorem related_start (value : Nat → Element) :
    Related value (start bytes : State Thread Element) AtomicQueue.start :=
  ⟨⟨rfl, fun _ => ⟨false, rfl, fun rejected => absurd rejected id⟩⟩, rfl⟩

/-- What is read with a ticket is its value. -/
theorem value_of_read (run : Reaches (system capacity moved) (start bytes) s trace)
    (few : FewTickets trace) (faithful : Faithful value s trace) {consumer : Thread}
    {ticket : UInt64} {element : Element} (member : .read consumer ticket element ∈ trace) :
    element = value ticket.toNat := by
  obtain ⟨before, after, split⟩ := List.append_of_mem member
  obtain ⟨_, producer, _, constructed⟩ := delivered_of_reaches run few split
  refine faithful.constructed producer ticket element ?_
  rw [split]
  exact List.mem_append_left _ constructed

theorem follows_of_reaches (run : Reaches (system capacity moved) (start bytes) s trace)
    (few : FewTickets trace) (faithful : Faithful value s trace) :
    Follows capacity value s AtomicQueue.start (observed trace) := by
  induction run with
  | start => exact ⟨_, .start, related_start value⟩
  | @next s next trace events action run step inductionHypothesis =>
    have before := few.of_append
    have sound := sound_of_reaches run before
    rw [observed_append]
    rcases system_cases step with ⟨caller, op, idle, rfl, rfl⟩ | ⟨stepper, advanced⟩
    · have old : Faithful value s trace := by
        refine ⟨fun producer ticket element member =>
          faithful.constructed _ _ _ (List.mem_append_left _ member),
          fun thread ticket write owes => faithful.owed thread ticket write ?_⟩
        by_cases this : thread = caller
        · subst this
          rw [idle] at owes
          exact absurd owes (not_owes_of_none rfl)
        · rw [State.setPc_pc_other _ _ _ this]
          exact owes
      obtain ⟨a, earlier, related⟩ := inductionHypothesis before old
      obtain ⟨a', later, following⟩ := follows_call related sound.looked op idle
      exact ⟨a', earlier.trans later, following⟩
    · obtain ⟨a, earlier, related⟩ :=
        inductionHypothesis before (faithful_before sound before faithful advanced)
      obtain ⟨a', later, following⟩ := follows_advance related sound few advanced
        (faithful.owed stepper) fun consumer ticket element member =>
          value_of_read (.next run step) few faithful (List.mem_append_right _ member)
      exact ⟨a', earlier.trans later, following⟩

theorem idle_of_view {pc : Pc Element} {taken : Nat} {reason : Bool}
    (idle : pc.view value taken reason = .idle) : pc = .idle := by
  cases pc with
  | idle => rfl
  | awaitFull ticket change =>
    rw [Pc.view] at idle
    split at idle <;> cases idle
  | destroy ticket after | release ticket after => cases after <;> cases idle
  | _ => cases idle

/-- In every run with fewer than `2 ^ 63` tickets, under any schedule of any number of threads,
threads see of the queue what they could have seen of an atomic bounded queue, which holds as many
elements as tickets of the head are ahead of the tail. -/
theorem refines_atomicQueue (run : Reaches (system capacity moved) (start bytes) s trace)
    (few : FewTickets trace) :
    ∃ a, Reaches (AtomicQueue.system capacity.value.toNat) AtomicQueue.start a (observed trace) ∧
      a.queue.length = s.head.toNat - s.tail.toNat ∧
      ∀ thread, a.pc thread = .idle ↔ s.pc thread = .idle := by
  obtain ⟨value, faithful⟩ := exists_faithful run few
  obtain ⟨a, follows, related⟩ := follows_of_reaches run few faithful
  refine ⟨a, follows, ?_, fun thread => ?_⟩
  · have numbered := related.numbered
    have taken := related.taken
    omega
  · obtain ⟨reason, view, _⟩ := related.depicts.pc thread
    rw [view]
    constructor
    · exact idle_of_view
    · intro idle
      rw [idle]
      rfl

end Simulation

/-- The exchange of two elements between a bulk push and two pops, seen from outside. -/
theorem refines_atomicQueue_exchange : ∃ s a,
    execute (system oneSlot id) (start fun _ => 0) exchange = some (s, exchanged) ∧
    Reaches (AtomicQueue.system 1) AtomicQueue.start a (observed exchanged) ∧
    a.queue = [] := by
  have traced : (execute (system oneSlot id) (start fun _ => 0) exchange).map
      (fun reached => (reached.1.head, reached.1.tail, reached.2)) =
        some (2, 2, exchanged) := rfl
  obtain ⟨⟨s, _⟩, executed, same⟩ := Option.map_eq_some_iff.mp traced
  obtain ⟨head, same⟩ := Prod.mk.inj same
  obtain ⟨tail, rfl⟩ := Prod.mk.inj same
  obtain ⟨a, run, length, _⟩ := refines_atomicQueue (reaches_of_execute executed) (by
    intro side
    cases side <;> decide)
  refine ⟨s, a, executed, run, List.eq_nil_of_length_eq_zero ?_⟩
  rw [length, head, tail]
  rfl

end MPMCQueue

end Sheep
