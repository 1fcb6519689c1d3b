/-
This file proves that a queue whose tickets wrap around hands every element over. In each
slot an element is constructed with a ticket and read with the same one, and then the
next with the ticket one capacity later, whatever number that is modulo `2 ^ 64`. The
ledger of the run says how far each slot has come.
-/

import Sheep.QueueNumbering

namespace Sheep

open Turnstile

namespace MPMCQueue

variable {Thread Element : Type} {capacity : Capacity} {index : UInt64}

/-! ### What happens in a slot -/

/-- The slot in which an element is constructed or read. -/
def Event.hands (capacity : Capacity) : Event Thread Element → Option UInt64
  | .constructed _ ticket _ => some (getSlot capacity ticket)
  | .read _ ticket _ => some (getSlot capacity ticket)
  | _ => none

/-- What is constructed and read in a slot. -/
def handing (capacity : Capacity) (index : UInt64) (trace : List (Event Thread Element)) :
    List (Event Thread Element) :=
  trace.filter fun event => event.hands capacity == some index

/-- The ticket of a slot in a lap. -/
def ticketOf (capacity : Capacity) (index : UInt64) (lap : Nat) : UInt64 :=
  UInt64.ofNat (capacity.value.toNat * lap + index.toNat)

/-- Elements are handed over one after the other: so many times something has been constructed or
read, and what is there now. -/
inductive Handing (capacity : Capacity) (index : UInt64) :
    Nat → Option Element → List (Event Thread Element) → Prop
  | fresh : Handing capacity index 0 none []
  | construct {lap : Nat} {events : List (Event Thread Element)} {thread : Thread}
      {element : Element} : Handing capacity index (2 * lap) none events →
      Handing capacity index (2 * lap + 1) (some element)
        (events ++ [.constructed thread (ticketOf capacity index lap) element])
  | read {lap : Nat} {events : List (Event Thread Element)} {thread : Thread}
      {element : Element} : Handing capacity index (2 * lap + 1) (some element) events →
      Handing capacity index (2 * lap + 2) none
        (events ++ [.read thread (ticketOf capacity index lap) element])

section Handing

variable {uses : Nat} {content : Option Element} {events : List (Event Thread Element)}

theorem Handing.none_of_even (handing : Handing capacity index uses content events)
    (even : uses % 2 = 0) : content = none := by
  cases handing with
  | fresh => rfl
  | construct _ => omega
  | read _ => rfl

theorem Handing.some_of_odd (handing : Handing capacity index uses content events)
    (odd : uses % 2 = 1) : ∃ element, content = some element := by
  cases handing with
  | fresh => omega
  | construct _ => exact ⟨_, rfl⟩
  | read _ => omega

theorem handing_append (trace events : List (Event Thread Element)) :
    handing capacity index (trace ++ events) =
      handing capacity index trace ++ handing capacity index events :=
  List.filter_append ..

theorem handing_self {event : Event Thread Element}
    (here : event.hands capacity = some index) : handing capacity index [event] = [event] := by
  rw [handing, List.filter_singleton, here, beq_self_eq_true]
  rfl

theorem handing_other {event : Event Thread Element} {place : UInt64}
    (there : event.hands capacity = some place) (different : index ≠ place) :
    handing capacity index [event] = [] := by
  rw [handing, List.filter_singleton, there, beq_eq_false_iff_ne.mpr]
  · rfl
  · exact fun same => different (Option.some.inj same).symm

theorem handing_nil (silent : ∀ event ∈ events, event.hands capacity = none) :
    handing capacity index events = [] := by
  refine List.filter_eq_nil_iff.mpr fun event member => ?_
  rw [silent event member]
  exact Bool.false_ne_true

/-- The ticket of a pass, by its slot and its lap. -/
theorem ticketOf_pass (side : Side) (ticket : Nat) :
    ticketOf capacity (pass capacity side ticket).place (ticket / capacity.value.toNat) =
      UInt64.ofNat ticket := by
  have place : (pass capacity side ticket).place.toNat = ticket % capacity.value.toNat :=
    toNat_getSlot_ofNat capacity ticket
  rw [ticketOf, place, Nat.div_add_mod]

end Handing

/-! ### How far each slot has come -/

/-- Whether a thread inside a slot has constructed or read its element. -/
def Pc.spent : Pc Element → Nat
  | .publish _ _ => 1
  | .destroy _ _ => 1
  | .release _ _ => 1
  | _ => 0

/-- Every slot has come as far as the ledger says, and holds the element that is to be read. -/
structure Handed (capacity : Capacity) (s : State Thread Element)
    (trace : List (Event Thread Element)) (ledger : Ledger Side UInt64 Thread)
    (uses : UInt64 → Nat) : Prop where
  during : ∀ thread hand, ledger.hand thread = some hand → ledger.inside thread = true →
    uses (pass capacity hand.counter hand.first).place =
      ledger.turn (pass capacity hand.counter hand.first).place + (s.pc thread).spent
  quiet : ∀ index, uses index = ledger.turn index ∨ ∃ thread hand,
    ledger.hand thread = some hand ∧ ledger.inside thread = true ∧
      (pass capacity hand.counter hand.first).place = index
  told : ∀ index, ∃ content,
    Handing capacity index (uses index) content (handing capacity index trace) ∧
      ∀ element, content = some element → (s.slots index).data = element

theorem handed_start (capacity : Capacity) (bytes : UInt64 → Element) :
    Handed capacity (start bytes : State Thread Element) [] blank fun _ => 0 where
  during thread hand has := by cases has
  quiet index := .inl rfl
  told index := ⟨none, .fresh, fun element none => by cases none⟩

section Steps

variable {s next : State Thread Element} {trace events : List (Event Thread Element)}
  {ledger ledger' : Ledger Side UInt64 Thread} {uses : UInt64 → Nat} {thread other : Thread}
  {hand hand' : Hand Side Nat}

/-- Events that hand nothing over leave it at that. -/
theorem Handed.told_append (handed : Handed capacity s trace ledger uses)
    (silent : ∀ event ∈ events, event.hands capacity = none) (index : UInt64) :
    ∃ content, Handing capacity index (uses index) content
        (handing capacity index (trace ++ events)) ∧
      ∀ element, content = some element → (s.slots index).data = element := by
  rw [handing_append, handing_nil silent, List.append_nil]
  exact handed.told index

/-- Two threads are not inside one slot. -/
theorem ne_of_inside (orderly : Orderly (ledger.board (pass capacity)))
    (has : ledger.hand thread = some hand) (inside : ledger.inside thread = true)
    (has' : ledger.hand other = some hand') (inside' : ledger.inside other = true)
    (different : other ≠ thread) :
    (pass capacity hand'.counter hand'.first).place ≠
      (pass capacity hand.counter hand.first).place := fun same =>
  different (orderly.alone ⟨inside', hand', has', rfl⟩ ⟨inside, hand, has, rfl⟩ same).1

/-- A thread that is in no slot takes a step that leads into one at most. -/
theorem handed_quiet (handed : Handed capacity s trace ledger uses)
    (orderly : Orderly (ledger'.board (pass capacity))) (turn : ledger'.turn = ledger.turn)
    (others : ∀ other, other ≠ thread → next.pc other = s.pc other ∧
      ledger'.hand other = ledger.hand other ∧ ledger'.inside other = ledger.inside other)
    (data : ∀ index, (next.slots index).data = (s.slots index).data)
    (outside : ledger.inside thread = false) (spent : (next.pc thread).spent = 0)
    (silent : ∀ event ∈ events, event.hands capacity = none) :
    Handed capacity next (trace ++ events) ledger' uses where
  during other hand has inside := by
    rw [turn]
    by_cases same : other = thread
    · subst same
      rw [spent]
      refine (handed.quiet _).resolve_right ?_
      rintro ⟨user, hand', has', inside', place⟩
      have different : user ≠ other := by
        rintro rfl
        rw [outside] at inside'
        cases inside'
      obtain ⟨_, hands, insides⟩ := others user different
      exact ne_of_inside orderly has inside (hands.trans has') (insides.trans inside') different
        place
    · obtain ⟨pc, hands, insides⟩ := others other same
      rw [hands] at has
      rw [insides] at inside
      rw [pc]
      exact handed.during other hand has inside
  quiet index := by
    rw [turn]
    refine (handed.quiet index).imp_right ?_
    rintro ⟨user, hand, has, inside, place⟩
    have different : user ≠ thread := by
      rintro rfl
      rw [outside] at inside
      cases inside
    obtain ⟨_, hands, insides⟩ := others user different
    exact ⟨user, hand, hands.trans has, insides.trans inside, place⟩
  told index := by
    rw [data]
    exact handed.told_append silent index

/-- A thread does something in the slot where it is. -/
theorem handed_touch (handed : Handed capacity s trace ledger uses)
    (orderly : Orderly (ledger.board (pass capacity)))
    (has : ledger.hand thread = some hand) (inside : ledger.inside thread = true)
    (others : ∀ other, other ≠ thread → next.pc other = s.pc other)
    (elsewhere : ∀ index, index ≠ (pass capacity hand.counter hand.first).place →
      next.slots index = s.slots index ∧ handing capacity index events = [])
    (told : ∃ content, Handing capacity (pass capacity hand.counter hand.first).place
      (ledger.turn (pass capacity hand.counter hand.first).place + (next.pc thread).spent) content
      (handing capacity (pass capacity hand.counter hand.first).place (trace ++ events)) ∧
      ∀ element, content = some element →
        (next.slots (pass capacity hand.counter hand.first).place).data = element) :
    Handed capacity next (trace ++ events) ledger
      (Function.update uses (pass capacity hand.counter hand.first).place
        (ledger.turn (pass capacity hand.counter hand.first).place + (next.pc thread).spent)) where
  during other hand' has' inside' := by
    by_cases same : other = thread
    · subst same
      cases has.symm.trans has'
      exact Function.update_self ..
    · rw [Function.update_of_ne (ne_of_inside orderly has inside has' inside' same),
        others other same]
      exact handed.during other hand' has' inside'
  quiet index := by
    by_cases here : index = (pass capacity hand.counter hand.first).place
    · exact .inr ⟨thread, hand, has, inside, here.symm⟩
    · rw [Function.update_of_ne here]
      exact handed.quiet index
  told index := by
    by_cases here : index = (pass capacity hand.counter hand.first).place
    · rw [here, Function.update_self]
      exact told
    · obtain ⟨slots, nothing⟩ := elsewhere index here
      rw [Function.update_of_ne here, slots, handing_append, nothing, List.append_nil]
      exact handed.told index

/-- A thread leaves the slot where it has constructed or read an element. -/
theorem handed_leave [DecidableEq Thread] {rest : Option (Hand Side Nat)}
    (handed : Handed capacity s trace ledger uses)
    (orderly : Orderly (ledger.board (pass capacity)))
    (has : ledger.hand thread = some hand) (inside : ledger.inside thread = true)
    (spent : (s.pc thread).spent = 1)
    (others : ∀ other, other ≠ thread → next.pc other = s.pc other)
    (data : ∀ index, (next.slots index).data = (s.slots index).data)
    (silent : ∀ event ∈ events, event.hands capacity = none) :
    Handed capacity next (trace ++ events)
      (ledger.leave thread (pass capacity hand.counter hand.first).place rest) uses where
  during other hand' has' inside' := by
    have different : other ≠ thread := by
      rintro rfl
      rw [Ledger.inside_leave_self] at inside'
      cases inside'
    rw [Ledger.leave_other different] at has'
    rw [Ledger.inside_leave_other different] at inside'
    rw [Ledger.turn_leave_other (ne_of_inside orderly has inside has' inside' different),
      others other different]
    exact handed.during other hand' has' inside'
  quiet index := by
    by_cases here : index = (pass capacity hand.counter hand.first).place
    · rw [here, Ledger.turn_leave_self, handed.during thread hand has inside, spent]
      exact .inl rfl
    · rw [Ledger.turn_leave_other here]
      refine (handed.quiet index).imp_right ?_
      rintro ⟨user, hand', has', inside', place⟩
      have different : user ≠ thread := by
        rintro rfl
        cases has.symm.trans has'
        exact here place.symm
      exact ⟨user, hand', (Ledger.leave_other different).trans has',
        (Ledger.inside_leave_other different).trans inside', place⟩
  told index := by
    rw [data]
    exact handed.told_append silent index

end Steps

/-! ### A ledger goes along -/

/-- A ledger goes along with the queue. -/
def Accounted (capacity : Capacity) (s : State Thread Element)
    (trace : List (Event Thread Element)) : Prop :=
  ∃ ledger uses, Numbered capacity s ledger ∧ Handed capacity s trace ledger uses

theorem hands_pushNext {thread : Thread} (ticket : UInt64) (after : AfterPush Element) :
    ∀ event ∈ (after.next thread ticket).2, event.hands capacity = none := by
  intro event member
  obtain ⟨value, rfl⟩ := returned_of_pushNext member
  rfl

theorem hands_popNext {thread : Thread} (ticket : UInt64) (after : AfterPop Element) :
    ∀ event ∈ (after.next thread ticket).2, event.hands capacity = none := by
  intro event member
  obtain ⟨value, rfl⟩ := returned_of_popNext member
  rfl

section Accounted

variable [DecidableEq Thread] {s next : State Thread Element}
  {trace events : List (Event Thread Element)} {ledger : Ledger Side UInt64 Thread}
  {uses : UInt64 → Nat} {thread : Thread} {pc : Pc Element}

/-- A thread without tickets looks at something. -/
theorem accounted_look (hand : Option (Hand Side Nat)) (numbered : Numbered capacity s ledger)
    (handed : Handed capacity s trace ledger uses)
    (nothing : ∀ given, (s.pc thread).carried = some given → given.count = 0)
    (outside : (s.pc thread).window = none)
    (carried : pc.carried = hand.map (Hand.map UInt64.ofNat)) (outside' : pc.window = none)
    (seen : ∀ given, hand = some given → given.count = 0 ∧
      given.first ≤ ledger.drawn given.counter ∧
      ledger.drawn given.counter < given.first + 2 ^ 63 ∧
      (pc.matched.isSome = true → (pass capacity given.counter given.first).turn ≤
        ledger.turn (pass capacity given.counter given.first).place))
    (spent : pc.spent = 0) (silent : ∀ event ∈ events, event.hands capacity = none) :
    Accounted capacity (s.setPc thread pc) (trace ++ events) := by
  have after := numbered_setHand numbered nothing outside carried outside' seen
  refine ⟨_, uses, after, handed_quiet handed after.orderly rfl
    (fun other different => ⟨State.setPc_pc_other _ _ _ different,
      Ledger.setHand_other different hand, rfl⟩) (fun _ => rfl)
    ((numbered.carries thread).outside outside) ?_ silent⟩
  rw [State.setPc_pc_self]
  exact spent

/-- It stops, or is about to begin. -/
theorem accounted_empty (numbered : Numbered capacity s ledger)
    (handed : Handed capacity s trace ledger uses)
    (nothing : ∀ given, (s.pc thread).carried = some given → given.count = 0)
    (outside : (s.pc thread).window = none) (carried : pc.carried = none)
    (outside' : pc.window = none) (spent : pc.spent = 0)
    (silent : ∀ event ∈ events, event.hands capacity = none) :
    Accounted capacity (s.setPc thread pc) (trace ++ events) :=
  accounted_look none numbered handed nothing outside carried outside'
    (fun given same => by cases same) spent silent

/-- It takes a look at the counter. -/
theorem accounted_load (side : Side) (numbered : Numbered capacity s ledger)
    (handed : Handed capacity s trace ledger uses)
    (nothing : ∀ given, (s.pc thread).carried = some given → given.count = 0)
    (outside : (s.pc thread).window = none)
    (carried : pc.carried = some ⟨side, s.counter side, 0⟩) (outside' : pc.window = none)
    (matched : pc.matched = none) (spent : pc.spent = 0)
    (silent : ∀ event ∈ events, event.hands capacity = none) :
    Accounted capacity (s.setPc thread pc) (trace ++ events) := by
  refine accounted_look (some ⟨side, ledger.drawn side, 0⟩) numbered handed nothing outside
    ?_ outside' (fun given same => ?_) spent silent
  · rw [carried, numbered.counters]
    rfl
  · cases same
    refine ⟨rfl, Nat.le_refl _, Nat.lt_add_of_pos_right (by decide), fun some => ?_⟩
    rw [matched] at some
    cases some

/-- It keeps to the ticket it has in mind. -/
theorem accounted_keep (side : Side) {ticket : UInt64} (numbered : Numbered capacity s ledger)
    (handed : Handed capacity s trace ledger uses)
    (before : (s.pc thread).carried = some ⟨side, ticket, 0⟩)
    (outside : (s.pc thread).window = none) (carried : pc.carried = some ⟨side, ticket, 0⟩)
    (outside' : pc.window = none)
    (matched : pc.matched.isSome = true →
      awaited capacity side ticket = (s.slots (getSlot capacity ticket)).turn)
    (spent : pc.spent = 0) (silent : ∀ event ∈ events, event.hands capacity = none) :
    Accounted capacity (s.setPc thread pc) (trace ++ events) := by
  obtain ⟨first, has, rfl⟩ := (numbered.carries thread).exists_hand before
  refine accounted_look (some ⟨side, first, 0⟩) numbered handed (fun given same => ?_)
    outside carried outside' (fun given same => ?_) spent silent
  · rw [before] at same
    cases same
    rfl
  · cases same
    obtain ⟨drawn, near⟩ := numbered.close thread _ has
    refine ⟨rfl, drawn, near, fun some => ?_⟩
    refine turn_le_of_turnAt numbered.orderly numbered.close drawn ?_
    rw [turnAt_pass, matched some]
    exact numbered.turns _

omit [DecidableEq Thread] in
/-- A ticket in hand whose turn it looks to be is good. -/
theorem good_of_turn {side : Side} {first count : Nat} (numbered : Numbered capacity s ledger)
    (has : ledger.hand thread = some ⟨side, first, count + 1⟩)
    (matched : awaited capacity side (UInt64.ofNat first) =
      (s.slots (getSlot capacity (UInt64.ofNat first))).turn) :
    ledger.turn (pass capacity side first).place = (pass capacity side first).turn := by
  have drawn := (numbered.close thread _ has).1
  refine Nat.le_antisymm (numbered.orderly.held_ahead thread _ ⟨_, has, first, Nat.le_refl _,
    Nat.lt_add_of_pos_right (Nat.succ_pos count), rfl⟩) ?_
  refine turn_le_of_turnAt numbered.orderly numbered.close (Nat.le_trans (Nat.le_add_right _ _)
    drawn) ?_
  rw [turnAt_pass, matched]
  exact numbered.turns _

/-- A thread goes on with a ticket that it has waited for. -/
theorem accounted_enter (side : Side) {ticket : UInt64} {count : Nat}
    (numbered : Numbered capacity s ledger) (handed : Handed capacity s trace ledger uses)
    (before : (s.pc thread).carried = some ⟨side, ticket, count + 1⟩)
    (outside : (s.pc thread).window = none)
    (matched : awaited capacity side ticket = (s.slots (getSlot capacity ticket)).turn)
    (carried : pc.carried = (s.pc thread).carried) (inside : pc.window.isSome = true)
    (matched' : pc.matched = none) (spent : pc.spent = 0) :
    Accounted capacity (s.setPc thread pc) (trace ++ []) := by
  obtain ⟨first, has, rfl⟩ := (numbered.carries thread).exists_hand before
  have after := numbered_enter numbered has (Nat.succ_pos _) outside carried inside matched'
    (good_of_turn numbered has matched)
  refine ⟨_, uses, after, handed_quiet handed after.orderly rfl
    (fun other different => ⟨State.setPc_pc_other _ _ _ different, rfl,
      Ledger.enter_other different⟩) (fun _ => rfl)
    ((numbered.carries thread).outside outside) ?_ (List.forall_mem_nil _)⟩
  rw [State.setPc_pc_self]
  exact spent

/-- A thread draws tickets and waits. -/
theorem accounted_draw (side : Side) (count : Nat) (numbered : Numbered capacity s ledger)
    (handed : Handed capacity s trace ledger uses)
    (nothing : ∀ given, (s.pc thread).carried = some given → given.count = 0)
    (outside : (s.pc thread).window = none)
    (counter : next.counter side = s.counter side + UInt64.ofNat count)
    (counter_other : ∀ other, other ≠ side → next.counter other = s.counter other)
    (slots : next.slots = s.slots) (pcs : next.pc = (s.setPc thread pc).pc)
    (carried : pc.carried = some ⟨side, s.counter side, count⟩) (outside' : pc.window = none)
    (matched : pc.matched = none) (near : next.Near) (spent : pc.spent = 0)
    (silent : ∀ event ∈ events, event.hands capacity = none) :
    Accounted capacity next (trace ++ events) := by
  have after := numbered_draw numbered nothing outside counter counter_other slots pcs carried
    outside' matched near
  refine ⟨_, uses, after, handed_quiet handed after.orderly rfl
    (fun other different => ⟨?_, Ledger.draw_other different, rfl⟩) (fun _ => by rw [slots])
    ((numbered.carries thread).outside outside) ?_ silent⟩
  · rw [pcs, State.setPc_pc_other _ _ _ different]
  · rw [pcs, State.setPc_pc_self]
    exact spent

/-- A thread draws a ticket that it has matched, and goes on. -/
theorem accounted_win (side : Side) (numbered : Numbered capacity s ledger)
    (handed : Handed capacity s trace ledger uses)
    (before : (s.pc thread).carried = some ⟨side, s.counter side, 0⟩)
    (matched : (s.pc thread).matched.isSome = true) (outside : (s.pc thread).window = none)
    (counter : next.counter side = s.counter side + 1)
    (counter_other : ∀ other, other ≠ side → next.counter other = s.counter other)
    (slots : next.slots = s.slots) (pcs : next.pc = (s.setPc thread pc).pc)
    (carried : pc.carried = some ⟨side, s.counter side, 1⟩) (inside : pc.window.isSome = true)
    (matched' : pc.matched = none) (near : next.Near) (spent : pc.spent = 0)
    (silent : ∀ event ∈ events, event.hands capacity = none) :
    Accounted capacity next (trace ++ events) := by
  have carries := numbered.carries thread
  have nothing : ∀ given, (s.pc thread).carried = some given → given.count = 0 := by
    intro given same
    rw [before] at same
    cases same
    rfl
  obtain ⟨first, has, same⟩ := carries.exists_hand before
  -- nobody has drawn a ticket since this one was matched
  have unmoved : first = ledger.drawn side := by
    obtain ⟨le, close⟩ := numbered.close thread _ has
    have equal := congrArg UInt64.toNat ((numbered.counters side).symm.trans same)
    rw [UInt64.toNat_ofNat', UInt64.toNat_ofNat'] at equal
    dsimp only at le close
    omega
  subst unmoved
  have good : ledger.turn (pass capacity side (ledger.drawn side)).place =
      (pass capacity side (ledger.drawn side)).turn := by
    refine Nat.le_antisymm (numbered.orderly.le_of_fresh ?_) (carries.matched matched _ has)
    rintro ⟨side', ticket, less, equal⟩
    obtain ⟨rfl, rfl⟩ := injective_pass capacity _ _ _ _ equal
    exact Nat.lt_irrefl _ less
  have after := numbered_win numbered nothing outside counter counter_other slots pcs carried
    inside matched' near good
  refine ⟨_, uses, after, handed_quiet handed after.orderly rfl
    (fun other different => ⟨?_, Ledger.draw_other different, Ledger.enter_other different⟩)
    (fun _ => by rw [slots]) (carries.outside outside) ?_ silent⟩
  · rw [pcs, State.setPc_pc_other _ _ _ different]
  · rw [pcs, State.setPc_pc_self]
    exact spent

omit [DecidableEq Thread] in
/-- What a thread finds in the slot where it is. -/
theorem inside_of_window {side : Side} {ticket : UInt64} {count : Nat}
    (numbered : Numbered capacity s ledger)
    (before : (s.pc thread).carried = some ⟨side, ticket, count⟩)
    (window : (s.pc thread).window.isSome = true) :
    ∃ first, ledger.hand thread = some ⟨side, first, count⟩ ∧ ticket = UInt64.ofNat first ∧
      ledger.inside thread = true ∧
      ledger.turn (getSlot capacity ticket) = (pass capacity side first).turn := by
  have carries := numbered.carries thread
  obtain ⟨first, has, rfl⟩ := carries.exists_hand before
  have inside : ledger.inside thread = true := carries.inside.trans window
  exact ⟨first, has, rfl, inside,
    numbered.orderly.inside_good thread _ ⟨inside, _, has, rfl⟩⟩

/-- A thread does something in the slot where it is. -/
theorem accounted_touch {side : Side} {ticket : UInt64} {count : Nat} {slot : Slot Element}
    (numbered : Numbered capacity s ledger) (handed : Handed capacity s trace ledger uses)
    (before : (s.pc thread).carried = some ⟨side, ticket, count⟩)
    (window : (s.pc thread).window.isSome = true)
    (turn : slot.turn = (s.slots (getSlot capacity ticket)).turn)
    (carried : pc.carried = (s.pc thread).carried) (window' : pc.window.isSome = true)
    (matched : pc.matched = none)
    (elsewhere : ∀ index, index ≠ getSlot capacity ticket → handing capacity index events = [])
    (told : ∀ lap content, ticket = ticketOf capacity (getSlot capacity ticket) lap →
      Handing capacity (getSlot capacity ticket)
        (2 * lap + side.parity + (s.pc thread).spent) content
        (handing capacity (getSlot capacity ticket) trace) →
      (∀ element, content = some element →
        (s.slots (getSlot capacity ticket)).data = element) →
      ∃ content', Handing capacity (getSlot capacity ticket) (2 * lap + side.parity + pc.spent)
          content' (handing capacity (getSlot capacity ticket) (trace ++ events)) ∧
        ∀ element, content' = some element → slot.data = element) :
    Accounted capacity ((s.setSlot (getSlot capacity ticket) slot).setPc thread pc)
      (trace ++ events) := by
  obtain ⟨first, has, rfl, inside, good⟩ := inside_of_window numbered before window
  have after := numbered_touch numbered turn carried window window' matched
  have uses_eq := handed.during thread _ has inside
  obtain ⟨content, handing, fits⟩ := handed.told (getSlot capacity (UInt64.ofNat first))
  refine ⟨ledger, _, after, handed_touch handed numbered.orderly has inside
    (fun other different => State.setPc_pc_other _ _ _ different)
    (fun index different => ⟨State.setSlot_slots_other _ _ _ different,
      elsewhere index different⟩) ?_⟩
  have place : uses (getSlot capacity (UInt64.ofNat first)) =
      (pass capacity side first).turn + (s.pc thread).spent :=
    uses_eq.trans (congrArg (· + (s.pc thread).spent) good)
  rw [place] at handing
  obtain ⟨content', handing', fits'⟩ := told (first / capacity.value.toNat) content
    (ticketOf_pass side first).symm handing fits
  refine ⟨content', ?_, ?_⟩
  · show Handing capacity _ (ledger.turn (getSlot capacity (UInt64.ofNat first)) + _) _ _
    rw [good, State.setPc_pc_self]
    exact handing'
  · intro element same
    show ((s.setSlot _ slot).slots (getSlot capacity (UInt64.ofNat first))).data = element
    rw [State.setSlot_slots_self]
    exact fits' element same

/-- A thread leaves the slot where it is, with the rest of its tickets. -/
theorem accounted_leave {side : Side} {ticket stored : UInt64} (count : Nat)
    (numbered : Numbered capacity s ledger) (handed : Handed capacity s trace ledger uses)
    (before : (s.pc thread).carried = some ⟨side, ticket, count + 1⟩)
    (window : (s.pc thread).window.isSome = true) (spent : (s.pc thread).spent = 1)
    (turn : ∀ first, ticket = UInt64.ofNat first →
      stored = turnAt capacity ((pass capacity side first).turn + 1))
    (rest : pc.carried = some ⟨side, ticket + 1, count⟩ ∨ pc.carried = none ∧ count = 0)
    (outside : pc.window = none) (matched : pc.matched = none)
    (silent : ∀ event ∈ events, event.hands capacity = none) :
    Accounted capacity ((s.setSlot (getSlot capacity ticket)
      ((s.slots (getSlot capacity ticket)).setTurn stored)).setPc thread pc) (trace ++ events) := by
  obtain ⟨first, has, rfl, inside, _⟩ := inside_of_window numbered before window
  obtain ⟨left, goesOn, carried⟩ : ∃ left : Option (Hand Side Nat),
      (⟨side, first, count + 1⟩ : Hand Side Nat).Rest left ∧
        pc.carried = left.map (Hand.map UInt64.ofNat) := by
    rcases rest with more | ⟨none, last⟩
    · refine ⟨some ⟨side, first + 1, count⟩, ⟨rfl, rfl, rfl⟩, ?_⟩
      rw [more, Option.map_some, Hand.map, UInt64.ofNat_add]
      rfl
    · refine ⟨.none, ?_, none⟩
      rw [last]
      rfl
  have after := numbered_leave
    ((s.slots (getSlot capacity (UInt64.ofNat first))).setTurn stored) numbered has goesOn window
    (turn first rfl) carried outside matched
  refine ⟨_, uses, after, handed_leave handed numbered.orderly has inside spent
    (fun other different => State.setPc_pc_other _ _ _ different) (fun index => ?_) silent⟩
  show ((s.setSlot _ _).slots index).data = _
  by_cases here : index = getSlot capacity (UInt64.ofNat first)
  · rw [here, State.setSlot_slots_self]
    rfl
  · rw [State.setSlot_slots_other _ _ _ here]

/-! ### Steps -/

theorem accounted_construct {ticket : UInt64} {write : Element → Element}
    {after : AfterPush Element} (numbered : Numbered capacity s ledger)
    (handed : Handed capacity s trace ledger uses)
    (before : s.pc thread = .construct ticket write after) :
    Accounted capacity
      ((s.setSlot (getSlot capacity ticket)
        ((s.slots (getSlot capacity ticket)).construct ticket write)).setPc thread
          (.publish ticket after))
      (trace ++ [.constructed thread ticket (write (s.slots (getSlot capacity ticket)).data)]) := by
  refine accounted_touch numbered handed (by rw [before]; rfl) (by rw [before]; rfl) rfl
    (by rw [before]; rfl) rfl rfl (fun index different => handing_other rfl different)
    fun lap content this told fits => ?_
  rw [before] at told
  have even : (2 * lap + Side.head.parity + (Pc.construct ticket write after).spent) % 2 = 0 :=
    Nat.mul_mod_right 2 lap
  cases told.none_of_even even
  refine ⟨some (write (s.slots (getSlot capacity ticket)).data), ?_, fun element same => ?_⟩
  · have built : Handing capacity _ _ _ (_ ++ [.constructed thread _
        (write (s.slots (getSlot capacity ticket)).data)]) := .construct told
    rw [← this] at built
    rw [handing_append, handing_self rfl]
    exact built
  · exact Option.some.inj same

theorem accounted_read {ticket : UInt64} {change : Element → Element} {after : AfterPop Element}
    (numbered : Numbered capacity s ledger) (handed : Handed capacity s trace ledger uses)
    (before : s.pc thread = .read ticket change after) :
    Accounted capacity
      ((s.setSlot (getSlot capacity ticket)
        ((s.slots (getSlot capacity ticket)).use change)).setPc thread (.destroy ticket after))
      (trace ++ [.read thread ticket (s.slots (getSlot capacity ticket)).data]) := by
  refine accounted_touch numbered handed (by rw [before]; rfl) (by rw [before]; rfl) rfl
    (by rw [before]; rfl) rfl rfl (fun index different => handing_other rfl different)
    fun lap content this told fits => ?_
  rw [before] at told
  have odd : (2 * lap + Side.tail.parity + (Pc.read ticket change after).spent) % 2 = 1 := by
    show (2 * lap + 1) % 2 = 1
    omega
  obtain ⟨element, rfl⟩ := told.some_of_odd odd
  refine ⟨none, ?_, fun element same => by cases same⟩
  have taken : Handing capacity _ _ _ (_ ++ [.read thread _ element]) := .read told
  rw [← this] at taken
  rw [handing_append, handing_self rfl, fits element rfl]
  exact taken

theorem accounted_destroy {ticket : UInt64} {after : AfterPop Element}
    (numbered : Numbered capacity s ledger) (handed : Handed capacity s trace ledger uses)
    (before : s.pc thread = .destroy ticket after) :
    Accounted capacity
      ((s.setSlot (getSlot capacity ticket) (s.slots (getSlot capacity ticket)).destroy).setPc
        thread (.release ticket after))
      (trace ++ [.destroyed (getSlot capacity ticket)
        (s.slots (getSlot capacity ticket)).object]) := by
  refine accounted_touch numbered handed (by rw [before]; rfl) (by rw [before]; rfl) rfl
    (by rw [before]; rfl) rfl rfl (fun index different => handing_nil
      (List.forall_mem_singleton.mpr rfl)) fun lap content this told fits => ?_
  rw [before] at told
  refine ⟨content, ?_, fits⟩
  rw [handing_append, handing_nil (List.forall_mem_singleton.mpr rfl), List.append_nil]
  exact told

theorem accounted_publish {ticket : UInt64} {after : AfterPush Element}
    (numbered : Numbered capacity s ledger) (handed : Handed capacity s trace ledger uses)
    (before : s.pc thread = .publish ticket after) :
    Accounted capacity
      ((s.setSlot (getSlot capacity ticket)
        ((s.slots (getSlot capacity ticket)).setTurn (fullTurn capacity ticket))).setPc thread
          (after.next thread (ticket + 1)).1)
      (trace ++ (after.next thread (ticket + 1)).2) := by
  refine accounted_leave after.left numbered handed (by rw [before]; rfl)
    (by rw [before]; rfl) (by rw [before]; rfl) (fun first same => ?_) ?_ (window_pushNext _ _) ?_
    (hands_pushNext _ _)
  · rw [same]
    exact fullTurn_ofNat first
  · cases after with
    | returnTrue => exact .inr ⟨rfl, rfl⟩
    | bulk rest =>
      cases rest with
      | nil => exact .inr ⟨rfl, rfl⟩
      | cons write rest => exact .inl rfl
  · cases after with
    | returnTrue => rfl
    | bulk rest => cases rest <;> rfl

theorem accounted_release {ticket : UInt64} {after : AfterPop Element}
    (numbered : Numbered capacity s ledger) (handed : Handed capacity s trace ledger uses)
    (before : s.pc thread = .release ticket after) :
    Accounted capacity
      ((s.setSlot (getSlot capacity ticket)
        ((s.slots (getSlot capacity ticket)).setTurn (releasedTurn capacity ticket))).setPc thread
          (after.next thread ticket).1)
      (trace ++ (after.next thread ticket).2) := by
  refine accounted_leave 0 numbered handed (by rw [before]; rfl) (by rw [before]; rfl)
    (by rw [before]; rfl) (fun first same => ?_) ?_ (window_popNext _ _) ?_ (hands_popNext _ _)
  · rw [same]
    exact releasedTurn_ofNat first
  · cases after with
    | done value => exact .inr ⟨rfl, rfl⟩
    | drain change count => exact .inl rfl
  · cases after <;> rfl

/-- Every step inside an operation that leaves nobody too far behind. -/
theorem accounted_advance (accounted : Accounted capacity s trace)
    (step : advance capacity s thread (s.pc thread) = some (next, events)) (near : next.Near) :
    Accounted capacity next (trace ++ events) := by
  obtain ⟨ledger, uses, numbered, handed⟩ := accounted
  have nothing {pc : Pc Element} (same : s.pc thread = pc)
      (none : ∀ given, pc.carried = some given → given.count = 0) :
      ∀ given, (s.pc thread).carried = some given → given.count = 0 := by
    rw [same]
    exact none
  cases advances_of_advance step with
  | @fetchHead writes pc =>
    have silent : ∀ event ∈ (.claimedHead thread s.head writes.length ::
        ((AfterPush.bulk writes).next thread s.head).2 : List (Event Thread Element)),
        event.hands capacity = none := List.forall_mem_cons.mpr ⟨rfl, hands_pushNext _ _⟩
    cases writes with
    | nil =>
      have same : s.head + UInt64.ofNat 0 = s.head := UInt64.add_zero _
      show Accounted capacity ({ s with head := s.head + UInt64.ofNat 0 }.setPc thread .idle) _
      rw [same]
      exact accounted_empty numbered handed (nothing pc fun _ none => by cases none)
        (by rw [pc]; rfl) rfl rfl rfl silent
    | cons write rest =>
      exact accounted_draw .head (rest.length + 1) numbered handed
        (nothing pc fun _ none => by cases none) (by rw [pc]; rfl) rfl
        (fun other different => by cases other <;> trivial) rfl rfl rfl rfl rfl near rfl silent
  | enterFree pc matched =>
    exact accounted_enter .head numbered handed (by rw [pc]; rfl) (by rw [pc]; rfl) matched
      (by rw [pc]; rfl) rfl rfl rfl
  | spinFree pc | spinFull pc =>
    rw [List.append_nil]
    exact ⟨ledger, uses, numbered, handed⟩
  | loadHead pc =>
    exact accounted_load .head numbered handed (nothing pc fun _ none => by cases none)
      (by rw [pc]; rfl) rfl rfl rfl rfl (List.forall_mem_nil _)
  | matchFree pc matched =>
    exact accounted_keep .head numbered handed (by rw [pc]; rfl) (by rw [pc]; rfl) rfl rfl
      (fun _ => matched) rfl (List.forall_mem_nil _)
  | missFree pc =>
    exact accounted_keep .head numbered handed (by rw [pc]; rfl) (by rw [pc]; rfl) rfl rfl
      (fun some => by cases some) rfl (List.forall_mem_nil _)
  | winHead pc =>
    exact accounted_win .head numbered handed (by rw [pc]; rfl) (by rw [pc]; rfl)
      (by rw [pc]; rfl) rfl (fun other different => by cases other <;> trivial) rfl rfl rfl rfl
      rfl near rfl (List.forall_mem_singleton.mpr rfl)
  | loseHead pc =>
    exact accounted_load .head numbered handed (nothing pc fun _ same => by cases same; rfl)
      (by rw [pc]; rfl) rfl rfl rfl rfl (List.forall_mem_nil _)
  | giveUpHead pc | giveUpTail pc =>
    exact accounted_empty numbered handed (nothing pc fun _ same => by cases same; rfl)
      (by rw [pc]; rfl) rfl rfl rfl (List.forall_mem_singleton.mpr rfl)
  | retryHead pc =>
    exact accounted_keep .head numbered handed (by rw [pc]; rfl) (by rw [pc]; rfl) rfl rfl
      (fun some => by cases some) rfl (List.forall_mem_nil _)
  | construct pc => exact accounted_construct numbered handed pc
  | publish pc => exact accounted_publish numbered handed pc
  | fetchTail pc =>
    exact accounted_draw .tail 1 numbered handed (nothing pc fun _ none => by cases none)
      (by rw [pc]; rfl) rfl (fun other different => by cases other <;> trivial) rfl rfl rfl rfl rfl
      near rfl (List.forall_mem_singleton.mpr rfl)
  | enterFull pc matched =>
    exact accounted_enter .tail numbered handed (by rw [pc]; rfl) (by rw [pc]; rfl) matched
      (by rw [pc]; rfl) rfl rfl rfl
  | loadTail pc =>
    exact accounted_load .tail numbered handed (nothing pc fun _ none => by cases none)
      (by rw [pc]; rfl) rfl rfl rfl rfl (List.forall_mem_nil _)
  | matchFull pc matched =>
    exact accounted_keep .tail numbered handed (by rw [pc]; rfl) (by rw [pc]; rfl) rfl rfl
      (fun _ => matched) rfl (List.forall_mem_nil _)
  | missFull pc =>
    exact accounted_keep .tail numbered handed (by rw [pc]; rfl) (by rw [pc]; rfl) rfl rfl
      (fun some => by cases some) rfl (List.forall_mem_nil _)
  | winTail pc =>
    exact accounted_win .tail numbered handed (by rw [pc]; rfl) (by rw [pc]; rfl) (by rw [pc]; rfl)
      rfl (fun other different => by cases other <;> trivial) rfl rfl rfl rfl rfl near rfl
      (List.forall_mem_singleton.mpr rfl)
  | loseTail pc =>
    exact accounted_load .tail numbered handed (nothing pc fun _ same => by cases same; rfl)
      (by rw [pc]; rfl) rfl rfl rfl rfl (List.forall_mem_nil _)
  | @retryTail attempt change ticket count pc =>
    cases attempt with
    | one =>
      exact accounted_keep .tail numbered handed (by rw [pc]; rfl) (by rw [pc]; rfl) rfl rfl
        (fun some => by cases some) rfl (List.forall_mem_nil _)
    | many =>
      exact accounted_load .tail numbered handed (nothing pc fun _ same => by cases same; rfl)
        (by rw [pc]; rfl) rfl rfl rfl rfl (List.forall_mem_nil _)
  | read pc => exact accounted_read numbered handed pc
  | destroy pc => exact accounted_destroy numbered handed pc
  | release pc => exact accounted_release numbered handed pc

end Accounted

/-! ### Runs -/

/-- The step leaves nobody `2 ^ 63` tickets behind. -/
def State.StaysNear [DecidableEq Thread] (capacity : Capacity) (moved : Element → Element)
    (s : State Thread Element) (action : Action Thread Element) : Prop :=
  ∀ next events, system capacity moved s action = some (next, events) → next.Near

theorem accounted_of_reachesBy [DecidableEq Thread] {moved : Element → Element}
    {bytes : UInt64 → Element} {s : State Thread Element} {trace : List (Event Thread Element)}
    (run : Transitions.ReachesBy (State.StaysNear capacity moved) (system capacity moved)
      (start bytes) s trace) : Accounted capacity s trace := by
  refine run.invariant (Accounted capacity)
    ⟨_, _, numbered_start capacity bytes, handed_start capacity bytes⟩ ?_
  intro s trace action next events _ accounted near step
  rcases system_cases step with ⟨thread, op, idle, rfl, rfl⟩ | ⟨thread, advanced⟩
  · obtain ⟨ledger, uses, numbered, handed⟩ := accounted
    refine accounted_empty numbered handed (fun given same => ?_) (by rw [idle]; rfl) ?_ ?_ ?_
      (List.forall_mem_singleton.mpr rfl)
    · rw [idle] at same
      cases same
    · cases op <;> rfl
    · cases op <;> rfl
    · cases op <;> rfl
  · exact accounted_advance accounted advanced (near next events step)

end MPMCQueue

end Sheep
