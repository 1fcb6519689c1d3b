/-
This file proves that the queue is a turnstile: its slots are the places, its
tickets are passes, and every step of a thread is at most two moves of the
protocol. A producer's ticket is good at an even turn and a consumer's at the odd
turn after it, so with fewer than `2 ^ 63` tickets no turn is met twice.
-/

import Sheep.Queue
import Sheep.Turnstile

namespace Sheep

open Turnstile

namespace MPMCQueue

/-! ### Slots and turns of tickets -/

section Arithmetic

variable (capacity : Capacity)

theorem Capacity.pos : 0 < capacity.value.toNat := by
  obtain ⟨exponent, _, same⟩ := capacity.isPower
  rw [same]
  exact Nat.two_pow_pos exponent

theorem Capacity.le : capacity.value.toNat ≤ 2 ^ 63 := by
  obtain ⟨exponent, small, same⟩ := capacity.isPower
  rw [same]
  exact Nat.pow_le_pow_right (Nat.succ_pos 1) (Nat.le_of_lt_succ small)

theorem toNat_getSlot (i : UInt64) :
    (getSlot capacity i).toNat = i.toNat % capacity.value.toNat := by
  obtain ⟨exponent, _, same⟩ := capacity.isPower
  have one : (1 : UInt64) ≤ capacity.value :=
    UInt64.le_iff_toNat_le.mpr capacity.pos
  rw [getSlot, UInt64.toNat_and, UInt64.toNat_sub_of_le _ _ one, same]
  exact Nat.and_two_pow_sub_one_eq_mod _ _

theorem toNat_turn (i : UInt64) :
    (turn capacity i).toNat = i.toNat / capacity.value.toNat :=
  UInt64.toNat_div _ _

variable {i : UInt64}

theorem turn_small (small : i.toNat < 2 ^ 63) : (turn capacity i).toNat < 2 ^ 63 := by
  rw [toNat_turn]
  exact lt_of_le_of_lt (Nat.div_le_self _ _) small

theorem toNat_freeTurn (small : i.toNat < 2 ^ 63) :
    (freeTurn capacity i).toNat = 2 * (i.toNat / capacity.value.toNat) := by
  have bounded := turn_small capacity small
  rw [freeTurn, UInt64.toNat_mul, toNat_turn] at *
  rw [show (2 : UInt64).toNat = 2 from rfl]
  omega

theorem toNat_fullTurn (small : i.toNat < 2 ^ 63) :
    (fullTurn capacity i).toNat = 2 * (i.toNat / capacity.value.toNat) + 1 := by
  have bounded := turn_small capacity small
  have free := toNat_freeTurn capacity small
  rw [toNat_turn] at bounded
  rw [fullTurn, UInt64.toNat_add, show turn capacity i * 2 = freeTurn capacity i from rfl, free,
    show (1 : UInt64).toNat = 1 from rfl]
  omega

/-- Below `2 ^ 63` tickets the last turn is not reached. -/
theorem turn_ne_last (small : i.toNat < 2 ^ 63) : turn capacity i ≠ turn capacity maxTicket := by
  intro same
  have equal := congrArg UInt64.toNat same
  rw [toNat_turn, toNat_turn, show maxTicket.toNat = 2 ^ 64 - 1 from rfl] at equal
  have positive := capacity.pos
  have bounded := capacity.le
  have low : (2 ^ 63 - 1) / capacity.value.toNat + 1 ≤
      (2 ^ 64 - 1) / capacity.value.toNat := by
    rw [← Nat.add_div_right _ positive]
    exact Nat.div_le_div_right (by omega)
  have high : i.toNat / capacity.value.toNat ≤ (2 ^ 63 - 1) / capacity.value.toNat :=
    Nat.div_le_div_right (by omega)
  omega

theorem toNat_releasedTurn (small : i.toNat + 1 < 2 ^ 63) :
    (releasedTurn capacity i).toNat = 2 * (i.toNat / capacity.value.toNat) + 2 := by
  have less : i.toNat < 2 ^ 63 := by omega
  have free := toNat_freeTurn capacity less
  have bounded : i.toNat / capacity.value.toNat ≤ i.toNat := Nat.div_le_self _ _
  rw [releasedTurn, if_neg (turn_ne_last capacity less), UInt64.toNat_add,
    show turn capacity i * 2 = freeTurn capacity i from rfl, free,
    show (2 : UInt64).toNat = 2 from rfl]
  omega

/-- Slot and turn determine a ticket. -/
theorem ticket_ext {j : UInt64} (slot : getSlot capacity i = getSlot capacity j)
    (lap : i.toNat / capacity.value.toNat = j.toNat / capacity.value.toNat) : i = j := by
  have rest := congrArg UInt64.toNat slot
  rw [toNat_getSlot, toNat_getSlot] at rest
  refine UInt64.toNat_inj.mp ?_
  rw [← Nat.div_add_mod i.toNat capacity.value.toNat, lap, rest, Nat.div_add_mod]

end Arithmetic

/-! ### Tickets as passes -/

/-- The two ticket counters. -/
inductive Side
  | head
  | tail
deriving DecidableEq, Repr

/-- Producers use even turns and consumers odd ones. -/
def Side.parity : Side → Nat
  | .head => 0
  | .tail => 1

/-- The pass of a ticket. -/
def pass (capacity : Capacity) (side : Side) (ticket : Nat) : Pass UInt64 where
  place := getSlot capacity (UInt64.ofNat ticket)
  turn := 2 * (ticket / capacity.value.toNat) + side.parity

theorem pass_toNat (capacity : Capacity) (side : Side) (i : UInt64) :
    (pass capacity side i.toNat).place = getSlot capacity i := by
  rw [pass, UInt64.ofNat_toNat]

theorem pass_injective {capacity : Capacity} {side side' : Side} {ticket ticket' : Nat}
    (small : ticket < 2 ^ 64) (small' : ticket' < 2 ^ 64)
    (same : pass capacity side ticket = pass capacity side' ticket') :
    side = side' ∧ ticket = ticket' := by
  have place := congrArg (·.place.toNat) same
  have turn := congrArg (·.turn) same
  simp only [pass, toNat_getSlot, UInt64.toNat_ofNat_of_lt' small,
    UInt64.toNat_ofNat_of_lt' small'] at place turn
  have sides : side = side' := by
    cases side <;> cases side' <;> simp only [Side.parity] at turn <;> first | rfl | omega
  subst sides
  refine ⟨rfl, ?_⟩
  have laps : ticket / capacity.value.toNat = ticket' / capacity.value.toNat := by omega
  rw [← Nat.div_add_mod ticket capacity.value.toNat, laps, place, Nat.div_add_mod]

section Board

variable {Thread Element : Type}

/-- How many elements a bulk push has left. -/
def AfterPush.left : AfterPush Element → Nat
  | .bulk rest => rest.length
  | .returnTrue => 0

/-- The tickets a thread holds: of which counter, from which on, and how many. -/
def Pc.held : Pc Element → Option (Side × Nat × Nat)
  | .awaitFree ticket _ rest => some (.head, ticket.toNat, rest.length + 1)
  | .construct ticket _ after => some (.head, ticket.toNat, after.left + 1)
  | .publish ticket after => some (.head, ticket.toNat, after.left + 1)
  | .awaitFull ticket _ => some (.tail, ticket.toNat, 1)
  | .read ticket _ _ => some (.tail, ticket.toNat, 1)
  | .destroy ticket _ => some (.tail, ticket.toNat, 1)
  | .release ticket _ => some (.tail, ticket.toNat, 1)
  | _ => none

/-- The ticket with which a thread is inside the access window of a slot: between the match of the
turn and its store. -/
def Pc.window : Pc Element → Option (Side × Nat)
  | .construct ticket _ _ => some (.head, ticket.toNat)
  | .publish ticket _ => some (.head, ticket.toNat)
  | .read ticket _ _ => some (.tail, ticket.toNat)
  | .destroy ticket _ => some (.tail, ticket.toNat)
  | .release ticket _ => some (.tail, ticket.toNat)
  | _ => none

/-- The thread holds the ticket, a 64-bit number. -/
def Pc.Holds (pc : Pc Element) (side : Side) (ticket : Nat) : Prop :=
  ticket < 2 ^ 64 ∧
    ∃ first count, pc.held = some (side, first, count) ∧ first ≤ ticket ∧ ticket < first + count

namespace State

/-- How many tickets of a counter have been claimed. -/
def count (s : State Thread Element) : Side → Nat
  | .head => s.head.toNat
  | .tail => s.tail.toNat

theorem count_lt_size (s : State Thread Element) (side : Side) : s.count side < 2 ^ 64 := by
  cases side
  · exact s.head.toNat_lt
  · exact s.tail.toNat_lt

/-- The queue as a turnstile. -/
def board (capacity : Capacity) (s : State Thread Element) : Board UInt64 Thread where
  turn index := (s.slots index).turn.toNat
  issued given := ∃ side ticket, ticket < s.count side ∧ given = pass capacity side ticket
  held thread given := ∃ side ticket, (s.pc thread).Holds side ticket ∧
    given = pass capacity side ticket
  inside thread given := ∃ side ticket, (s.pc thread).window = some (side, ticket) ∧
    given = pass capacity side ticket

end State

variable {capacity : Capacity} {s next : State Thread Element} {thread : Thread}

/-! ### Steps as moves -/

/-- Nothing but the program point of one thread and the contents of slots has changed, and that
thread holds what it held. -/
theorem stay_of (turns : ∀ index, (next.slots index).turn = (s.slots index).turn)
    (count : ∀ side, next.count side = s.count side)
    (others : ∀ other, other ≠ thread → next.pc other = s.pc other)
    (held : (next.pc thread).held = (s.pc thread).held)
    (window : (next.pc thread).window = (s.pc thread).window) :
    Stay (s.board capacity) (next.board capacity) := by
  have sameHeld (other : Thread) : (next.pc other).held = (s.pc other).held := by
    by_cases this : other = thread
    · rw [this, held]
    · rw [others other this]
  have sameWindow (other : Thread) : (next.pc other).window = (s.pc other).window := by
    by_cases this : other = thread
    · rw [this, window]
    · rw [others other this]
  refine ⟨fun index => ?_, fun given => ?_, fun other given => ?_, fun other given => ?_⟩
  · exact congrArg UInt64.toNat (turns index)
  · simp only [State.board, count]
  · simp only [State.board, Pc.Holds, sameHeld]
  · simp only [State.board, sameWindow]

/-- A thread that held nothing has claimed the next tickets of a counter. -/
theorem issue_of (side : Side) (claimed : Nat)
    (turns : ∀ index, (next.slots index).turn = (s.slots index).turn)
    (count : next.count side = s.count side + claimed)
    (count_other : ∀ other, other ≠ side → next.count other = s.count other)
    (others : ∀ other, other ≠ thread → next.pc other = s.pc other)
    (heldNone : (s.pc thread).held = none)
    (held : ∀ side' ticket, (next.pc thread).Holds side' ticket ↔
      side' = side ∧ s.count side ≤ ticket ∧ ticket < s.count side + claimed)
    (window : (next.pc thread).window = (s.pc thread).window)
    (small : s.count side + claimed < 2 ^ 64) :
    Issue thread (fun given => ∃ ticket, s.count side ≤ ticket ∧ ticket < s.count side + claimed ∧
      given = pass capacity side ticket) (s.board capacity) (next.board capacity) := by
  have bounded := s.count_lt_size
  have heldNothing (side' : Side) (ticket : Nat) : ¬ (s.pc thread).Holds side' ticket := by
    rintro ⟨_, first, more, held', _⟩
    rw [heldNone] at held'
    cases held'
  refine ⟨?_, fun index => congrArg UInt64.toNat (turns index), fun given => ?_,
    fun other given => ?_, fun other given => ?_⟩
  · rintro _ ⟨ticket, low, high, rfl⟩ ⟨side', ticket', less, same⟩
    have less' := bounded side'
    obtain ⟨rfl, rfl⟩ := pass_injective (by omega) (by omega) same
    omega
  · constructor
    · rintro ⟨side', ticket, less, rfl⟩
      by_cases this : side' = side
      · subst this
        rw [count] at less
        by_cases old : ticket < s.count side'
        · exact Or.inl ⟨side', ticket, old, rfl⟩
        · exact Or.inr ⟨ticket, by omega, less, rfl⟩
      · rw [count_other side' this] at less
        exact Or.inl ⟨side', ticket, less, rfl⟩
    · rintro (⟨side', ticket, less, rfl⟩ | ⟨ticket, low, high, rfl⟩)
      · refine ⟨side', ticket, ?_, rfl⟩
        by_cases this : side' = side
        · subst this
          omega
        · rw [count_other side' this]
          exact less
      · exact ⟨side, ticket, by omega, rfl⟩
  · by_cases this : other = thread
    · subst this
      constructor
      · rintro ⟨side', ticket, holds, rfl⟩
        obtain ⟨rfl, low, high⟩ := (held side' ticket).mp holds
        exact Or.inr ⟨rfl, ticket, low, high, rfl⟩
      · rintro (⟨side', ticket, holds, rfl⟩ | ⟨_, ticket, low, high, rfl⟩)
        · exact absurd holds (heldNothing side' ticket)
        · exact ⟨side, ticket, (held side ticket).mpr ⟨rfl, low, high⟩, rfl⟩
    · simp only [State.board, others other this, this, false_and, or_false]
  · have sameWindow : (next.pc other).window = (s.pc other).window := by
      by_cases this : other = thread
      · rw [this, window]
      · rw [others other this]
    simp only [State.board, sameWindow]

/-- A thread has entered the window of a ticket it holds. -/
theorem enter_of {side : Side} {ticket : Nat}
    (turns : ∀ index, (next.slots index).turn = (s.slots index).turn)
    (count : ∀ side, next.count side = s.count side)
    (others : ∀ other, other ≠ thread → next.pc other = s.pc other)
    (holds : (s.pc thread).Holds side ticket)
    (held : (next.pc thread).held = (s.pc thread).held)
    (outside : (s.pc thread).window = none)
    (window : (next.pc thread).window = some (side, ticket))
    (good : (s.slots (pass capacity side ticket).place).turn.toNat =
      (pass capacity side ticket).turn) :
    Enter thread (pass capacity side ticket) (s.board capacity) (next.board capacity) := by
  have sameHeld (other : Thread) : (next.pc other).held = (s.pc other).held := by
    by_cases this : other = thread
    · rw [this, held]
    · rw [others other this]
  refine ⟨⟨side, ticket, holds, rfl⟩, good, fun index => congrArg UInt64.toNat (turns index),
    fun given => ?_, fun other given => ?_, fun other given => ?_⟩
  · simp only [State.board, count]
  · simp only [State.board, Pc.Holds, sameHeld]
  · by_cases this : other = thread
    · subst this
      simp only [State.board, window, outside, reduceCtorEq, false_and, exists_false, false_or,
        true_and]
      constructor
      · rintro ⟨side', ticket', same, rfl⟩
        cases same
        rfl
      · rintro rfl
        exact ⟨side, ticket, rfl, rfl⟩
    · simp only [State.board, others other this, this, false_and, or_false]

/-- A thread has stored the next turn of a slot and left the window. -/
theorem leave_of {side : Side} {ticket : Nat}
    (turn : (next.slots (pass capacity side ticket).place).turn.toNat =
      (pass capacity side ticket).turn + 1)
    (turn_other : ∀ index, index ≠ (pass capacity side ticket).place →
      (next.slots index).turn = (s.slots index).turn)
    (count : ∀ side, next.count side = s.count side)
    (others : ∀ other, other ≠ thread → next.pc other = s.pc other)
    (holds : (s.pc thread).Holds side ticket)
    (held : ∀ side' ticket', (next.pc thread).Holds side' ticket' ↔
      (s.pc thread).Holds side' ticket' ∧ ¬ (side' = side ∧ ticket' = ticket))
    (inside : (s.pc thread).window = some (side, ticket))
    (window : (next.pc thread).window = none) :
    Leave thread (pass capacity side ticket) (s.board capacity) (next.board capacity) := by
  refine ⟨⟨side, ticket, inside, rfl⟩, turn,
    fun index different => congrArg UInt64.toNat (turn_other index different), fun given => ?_,
    fun other given => ?_, fun other given => ?_⟩
  · simp only [State.board, count]
  · by_cases this : other = thread
    · subst this
      constructor
      · rintro ⟨side', ticket', holds', rfl⟩
        obtain ⟨old, different⟩ := (held side' ticket').mp holds'
        refine ⟨⟨side', ticket', old, rfl⟩, fun same => different ?_⟩
        exact pass_injective old.1 holds.1 same.2
      · rintro ⟨⟨side', ticket', old, rfl⟩, different⟩
        refine ⟨side', ticket', (held side' ticket').mpr ⟨old, ?_⟩, rfl⟩
        rintro ⟨rfl, rfl⟩
        exact different ⟨rfl, rfl⟩
    · simp only [State.board, others other this, this, false_and, not_false_eq_true, and_true]
  · by_cases this : other = thread
    · subst this
      simp only [State.board, window, inside, reduceCtorEq, false_and, exists_false, true_and,
        false_iff, not_and, not_not]
      rintro ⟨side', ticket', same, rfl⟩
      cases same
      rfl
    · simp only [State.board, others other this, this, false_and, not_false_eq_true, and_true]

/-! ### Counting tickets -/

/-- The tickets a step claims of a counter. -/
def Event.claimed (side : Side) : Event Thread Element → List Nat
  | .claimedHead _ first count => if side = .head then List.range' first.toNat count else []
  | .claimedTail _ ticket => if side = .tail then [ticket.toNat] else []
  | _ => []

/-- The tickets claimed in a run, in order. -/
def claims (side : Side) (trace : List (Event Thread Element)) : List Nat :=
  trace.flatMap (Event.claimed side)

theorem claims_append (side : Side) (trace events : List (Event Thread Element)) :
    claims side (trace ++ events) = claims side trace ++ claims side events :=
  List.flatMap_append

theorem claims_cons (side : Side) (event : Event Thread Element)
    (events : List (Event Thread Element)) :
    claims side (event :: events) = event.claimed side ++ claims side events := rfl

/-- Going on with the next ticket shows nothing, and returning only that. -/
theorem returned_of_pushNext {ticket : UInt64} {after : AfterPush Element}
    {event : Event Thread Element} (member : event ∈ (after.next thread ticket).2) :
    ∃ value, event = .returned thread value := by
  cases after with
  | returnTrue => exact ⟨_, List.mem_singleton.mp member⟩
  | bulk rest =>
    cases rest with
    | nil => exact ⟨_, List.mem_singleton.mp member⟩
    | cons write rest => cases member

theorem returned_of_popNext {ticket : UInt64} {after : AfterPop Element}
    {event : Event Thread Element} (member : event ∈ (after.next thread ticket).2) :
    ∃ value, event = .returned thread value := by
  cases after with
  | done value => exact ⟨value, List.mem_singleton.mp member⟩
  | drain change count => cases member

theorem claims_pushNext (side : Side) (ticket : UInt64) (after : AfterPush Element) :
    claims side (after.next thread ticket).2 = [] := by
  cases after with
  | bulk rest => cases rest <;> rfl
  | returnTrue => rfl

theorem claims_popNext (side : Side) (ticket : UInt64) (after : AfterPop Element) :
    claims side (after.next thread ticket).2 = [] := by
  cases after <;> rfl

theorem toNat_add_ofNat {counter : UInt64} {more : Nat} (small : counter.toNat + more < 2 ^ 63) :
    (counter + UInt64.ofNat more).toNat = counter.toNat + more := by
  rw [UInt64.toNat_add, UInt64.toNat_ofNat_of_lt' (by show more < 2 ^ 64; omega),
    Nat.mod_eq_of_lt (by omega)]

theorem toNat_add_one {counter : UInt64} (small : counter.toNat + 1 < 2 ^ 63) :
    (counter + 1).toNat = counter.toNat + 1 := toNat_add_ofNat small

variable {events : List (Event Thread Element)}

/-- The events of a step claim the next tickets of each counter, and count them. -/
def Counted (s next : State Thread Element) (events : List (Event Thread Element)) : Prop :=
  ∀ side, next.count side = s.count side + (claims side events).length ∧
    claims side events = List.range' (s.count side) (claims side events).length

theorem counted_of_claimsNone (head : next.head = s.head) (tail : next.tail = s.tail)
    (none : ∀ side, claims side events = []) : Counted s next events := by
  intro side
  rw [none side]
  refine ⟨?_, rfl⟩
  cases side
  · exact congrArg UInt64.toNat head
  · exact congrArg UInt64.toNat tail

theorem counted_head (more : Nat) (head : next.head = s.head + UInt64.ofNat more)
    (tail : next.tail = s.tail) (none : ∀ side, claims side events = [])
    (small : s.head.toNat + more < 2 ^ 63) :
    Counted s next (.claimedHead thread s.head more :: events) := by
  intro side
  rw [claims_cons, none side, List.append_nil]
  cases side
  · rw [Event.claimed, if_pos rfl, List.length_range']
    refine ⟨?_, rfl⟩
    rw [State.count, head, toNat_add_ofNat small, State.count]
  · rw [Event.claimed, if_neg (by decide)]
    exact ⟨congrArg UInt64.toNat tail, rfl⟩

theorem counted_tail (tail : next.tail = s.tail + 1) (head : next.head = s.head)
    (small : s.tail.toNat + 1 < 2 ^ 63) :
    Counted s next [.claimedTail thread s.tail] := by
  intro side
  rw [claims_cons]
  cases side
  · rw [Event.claimed, if_neg (by decide)]
    exact ⟨congrArg UInt64.toNat head, rfl⟩
  · rw [Event.claimed, if_pos rfl]
    refine ⟨?_, rfl⟩
    rw [State.count, tail, toNat_add_one small]
    rfl

/-! ### Held tickets -/

theorem Holds.of_held {pc : Pc Element} {side : Side} {ticket count : Nat}
    (held : pc.held = some (side, ticket, count + 1)) (small : ticket < 2 ^ 64) :
    pc.Holds side ticket :=
  ⟨small, _, _, held, le_refl _, by omega⟩

theorem not_holds_of_none {pc : Pc Element} {side : Side} {ticket : Nat} (held : pc.held = none) :
    ¬ pc.Holds side ticket := by
  rintro ⟨_, first, count, held', _⟩
  rw [held] at held'
  cases held'

theorem holds_awaitFree {side : Side} {i : UInt64} {ticket : Nat} {write : Element → Element}
    {rest : List (Element → Element)} :
    (Pc.awaitFree i write rest).Holds side ticket ↔ ticket < 2 ^ 64 ∧ side = .head ∧
      i.toNat ≤ ticket ∧ ticket < i.toNat + (rest.length + 1) := by
  constructor
  · rintro ⟨small, first, count, held, low, high⟩
    cases held
    exact ⟨small, rfl, low, high⟩
  · rintro ⟨small, rfl, low, high⟩
    exact ⟨small, _, _, rfl, low, high⟩

theorem holds_pushNext {side : Side} {i : UInt64} {ticket : Nat} {after : AfterPush Element} :
    ((after.next thread i).1).Holds side ticket ↔
      ticket < 2 ^ 64 ∧ side = .head ∧ i.toNat ≤ ticket ∧ ticket < i.toNat + after.left := by
  have nothing (low : i.toNat ≤ ticket) (high : ticket < i.toNat + 0) : False := by omega
  cases after with
  | returnTrue =>
    refine ⟨fun ⟨_, _, _, held, _⟩ => ?_, fun ⟨_, _, low, high⟩ => absurd (nothing low high) id⟩
    cases held
  | bulk rest =>
    cases rest with
    | nil =>
      refine ⟨fun ⟨_, _, _, held, _⟩ => ?_, fun ⟨_, _, low, high⟩ => absurd (nothing low high) id⟩
      cases held
    | cons write rest => exact holds_awaitFree

theorem window_pushNext (i : UInt64) (after : AfterPush Element) :
    ((after.next thread i).1).window = none := by
  cases after with
  | returnTrue => rfl
  | bulk rest => cases rest <;> rfl

theorem held_popNext (i : UInt64) (after : AfterPop Element) :
    ((after.next thread i).1).held = none := by
  cases after <;> rfl

theorem window_popNext (i : UInt64) (after : AfterPop Element) :
    ((after.next thread i).1).window = none := by
  cases after <;> rfl

theorem turn_pass_head (i : UInt64) : (pass capacity .head i.toNat).turn =
    2 * (i.toNat / capacity.value.toNat) := rfl

theorem turn_pass_tail (i : UInt64) : (pass capacity .tail i.toNat).turn =
    2 * (i.toNat / capacity.value.toNat) + 1 := rfl

/-- A held ticket has been claimed. -/
theorem lt_count_of_holds (orderly : Orderly (s.board capacity)) {side : Side} {ticket : Nat}
    (holds : (s.pc thread).Holds side ticket) : ticket < s.count side := by
  obtain ⟨side', ticket', less, same⟩ :=
    orderly.held_issued thread _ ⟨side, ticket, holds, rfl⟩
  have bounded := s.count_lt_size side'
  obtain ⟨rfl, rfl⟩ := pass_injective holds.1 (by omega) same
  exact less

/-! ### What threads have seen -/

/-- The counter a thread looks at without holding a ticket, and the value it has of it. -/
def Pc.tested : Pc Element → Option (Side × UInt64)
  | .testFree ticket _ => some (.head, ticket)
  | .casHead ticket _ => some (.head, ticket)
  | .reloadHead ticket _ => some (.head, ticket)
  | .testFull _ _ ticket _ => some (.tail, ticket)
  | .casTail _ _ ticket _ => some (.tail, ticket)
  | .reloadTail _ _ ticket _ => some (.tail, ticket)
  | _ => none

/-- The ticket whose turn a thread has matched without holding it. -/
def Pc.matched : Pc Element → Option (Side × UInt64)
  | .casHead ticket _ => some (.head, ticket)
  | .casTail _ _ ticket _ => some (.tail, ticket)
  | _ => none

/-- What a thread has seen was true of an earlier state. -/
structure Looked (capacity : Capacity) (s : State Thread Element) (pc : Pc Element) : Prop where
  tested : ∀ side ticket, pc.tested = some (side, ticket) → ticket.toNat ≤ s.count side
  matched : ∀ side ticket, pc.matched = some (side, ticket) →
    (pass capacity side ticket.toNat).turn ≤ (s.slots (getSlot capacity ticket)).turn.toNat

theorem Looked.mono {pc : Pc Element} (looked : Looked capacity s pc)
    (counts : ∀ side, s.count side ≤ next.count side)
    (turns : ∀ index, (s.slots index).turn.toNat ≤ (next.slots index).turn.toNat) :
    Looked capacity next pc :=
  ⟨fun side ticket tested => le_trans (looked.tested side ticket tested) (counts side),
    fun side ticket matched => le_trans (looked.matched side ticket matched) (turns _)⟩

theorem looked_of_none {pc : Pc Element} (tested : pc.tested = none) (matched : pc.matched = none) :
    Looked capacity s pc := by
  constructor
  · intro side ticket same
    rw [tested] at same
    cases same
  · intro side ticket same
    rw [matched] at same
    cases same

theorem looked_of_tested {pc : Pc Element} {side : Side} {ticket : UInt64}
    (tested : pc.tested = some (side, ticket)) (matched : pc.matched = none)
    (le : ticket.toNat ≤ s.count side) : Looked capacity s pc := by
  constructor
  · intro side' ticket' same
    rw [tested] at same
    cases same
    exact le
  · intro side' ticket' same
    rw [matched] at same
    cases same

theorem looked_of_matched {pc : Pc Element} {side : Side} {ticket : UInt64}
    (tested : pc.tested = some (side, ticket)) (matched : pc.matched = some (side, ticket))
    (le : ticket.toNat ≤ s.count side)
    (turn : (pass capacity side ticket.toNat).turn =
      (s.slots (getSlot capacity ticket)).turn.toNat) : Looked capacity s pc := by
  constructor
  · intro side' ticket' same
    rw [tested] at same
    cases same
    exact le
  · intro side' ticket' same
    rw [matched] at same
    cases same
    exact turn.le

/-- A slot has not got beyond the turn of a ticket that nobody has claimed. -/
theorem turn_le_of_count_le (orderly : Orderly (s.board capacity)) {side : Side} {ticket : Nat}
    (small : ticket < 2 ^ 64) (unclaimed : s.count side ≤ ticket) :
    (s.slots (pass capacity side ticket).place).turn.toNat ≤ (pass capacity side ticket).turn := by
  refine orderly.le_of_fresh ?_
  rintro ⟨side', ticket', less, same⟩
  have bounded := s.count_lt_size side'
  obtain ⟨rfl, rfl⟩ := pass_injective small (by omega) same
  omega

theorem turn_le_of_unclaimed (orderly : Orderly (s.board capacity)) {side : Side} {i : UInt64}
    (unclaimed : s.count side ≤ i.toNat) :
    (s.slots (getSlot capacity i)).turn.toNat ≤ (pass capacity side i.toNat).turn := by
  have ahead := turn_le_of_count_le orderly i.toNat_lt unclaimed
  rw [pass_toNat] at ahead
  exact ahead

/-- A thread that has matched the turn of a ticket which nobody has claimed yet finds it still
good. -/
theorem good_of_matched (orderly : Orderly (s.board capacity))
    (looked : Looked capacity s (s.pc thread)) {side : Side} {i : UInt64}
    (matched : (s.pc thread).matched = some (side, i)) (unclaimed : s.count side = i.toNat) :
    (s.slots (getSlot capacity i)).turn.toNat = (pass capacity side i.toNat).turn :=
  le_antisymm (turn_le_of_unclaimed orderly unclaimed.le) (looked.matched side i matched)

/-! ### The invariant -/

/-- The invariant of the queue: its turnstile is in order, what threads have seen was true, and the
tickets of each counter have been claimed in order. -/
structure Sound (capacity : Capacity) (s : State Thread Element)
    (trace : List (Event Thread Element)) : Prop where
  orderly : Orderly (s.board capacity)
  looked : ∀ thread, Looked capacity s (s.pc thread)
  claimed : ∀ side, claims side trace = List.range (s.count side)

/-- Fewer than `2 ^ 63` tickets of each counter have been claimed. -/
def FewTickets (trace : List (Event Thread Element)) : Prop :=
  ∀ side, (claims side trace).length < 2 ^ 63

theorem FewTickets.of_append {trace events : List (Event Thread Element)}
    (few : FewTickets (trace ++ events)) : FewTickets trace := by
  intro side
  have bounded := few side
  rw [claims_append, List.length_append] at bounded
  omega

theorem Sound.count_lt {trace : List (Event Thread Element)} (sound : Sound capacity s trace)
    (few : FewTickets trace) (side : Side) : s.count side < 2 ^ 63 := by
  have bounded := few side
  rwa [sound.claimed side, List.length_range] at bounded

/-- So the counters stay small over a step. -/
theorem Sound.small {trace events : List (Event Thread Element)} (sound : Sound capacity s trace)
    (few : FewTickets (trace ++ events)) (side : Side) :
    s.count side + (claims side events).length < 2 ^ 63 := by
  have bounded := few side
  rw [claims_append, List.length_append, sound.claimed side, List.length_range] at bounded
  exact bounded

theorem sound_start (capacity : Capacity) (bytes : UInt64 → Element) :
    Sound capacity (start bytes : State Thread Element) [] := by
  have none (side : Side) : (start bytes : State Thread Element).count side = 0 := by
    cases side <;> rfl
  refine ⟨⟨?_, ?_, ?_, ?_, ?_, ?_, ?_⟩, fun thread => looked_of_none rfl rfl, fun side => ?_⟩
  · rintro thread given ⟨side, ticket, holds, _⟩
    exact absurd holds (not_holds_of_none rfl)
  · rintro thread other given ⟨side, ticket, holds, _⟩
    exact absurd holds (not_holds_of_none rfl)
  · exact fun thread given _ => Nat.zero_le _
  · rintro thread given ⟨side, ticket, inside, _⟩
    cases inside
  · rintro thread given ⟨side, ticket, inside, _⟩
    cases inside
  · exact fun given passed => absurd passed (Nat.not_lt_zero _)
  · rintro given ⟨side, ticket, less, _⟩
    rw [none side] at less
    exact absurd less (Nat.not_lt_zero _)
  · rw [none side]
    rfl

end Board

end MPMCQueue

end Sheep
