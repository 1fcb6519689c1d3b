/-
This file proves that every step of a thread inside a queue operation is at most
two moves of the turnstile, and from it the invariant of every run: the turnstile
stays in order, tickets are claimed one after the other, and what a thread has
seen of a counter or a turn was true of an earlier state.
-/

import Sheep.QueueTurns

namespace Sheep

open Turnstile

namespace MPMCQueue

variable {Thread Element : Type} [DecidableEq Thread] {capacity : Capacity}
  {s next : State Thread Element} {thread : Thread} {events : List (Event Thread Element)}

/-! ### What a step does -/

/-- The steps of a thread inside an operation: where it stands, and what follows. -/
inductive Advances (capacity : Capacity) (s : State Thread Element) (thread : Thread) :
    State Thread Element → List (Event Thread Element) → Prop
  | fetchHead {writes : List (Element → Element)} (pc : s.pc thread = .fetchHead writes) :
      Advances capacity s thread
        ({ s with head := s.head + UInt64.ofNat writes.length }.setPc thread
          ((AfterPush.bulk writes).next thread s.head).1)
        (.claimedHead thread s.head writes.length :: ((AfterPush.bulk writes).next thread s.head).2)
  | enterFree {ticket : UInt64} {write : Element → Element} {rest : List (Element → Element)}
      (pc : s.pc thread = .awaitFree ticket write rest)
      (matched : freeTurn capacity ticket = (s.slots (getSlot capacity ticket)).turn) :
      Advances capacity s thread (s.setPc thread (.construct ticket write (.bulk rest))) []
  | spinFree {ticket : UInt64} {write : Element → Element} {rest : List (Element → Element)}
      (pc : s.pc thread = .awaitFree ticket write rest)
      (mismatch : freeTurn capacity ticket ≠ (s.slots (getSlot capacity ticket)).turn) :
      Advances capacity s thread s []
  | loadHead {write : Element → Element} (pc : s.pc thread = .loadHead write) :
      Advances capacity s thread (s.setPc thread (.testFree s.head write)) []
  | matchFree {ticket : UInt64} {write : Element → Element}
      (pc : s.pc thread = .testFree ticket write)
      (matched : freeTurn capacity ticket = (s.slots (getSlot capacity ticket)).turn) :
      Advances capacity s thread (s.setPc thread (.casHead ticket write)) []
  | missFree {ticket : UInt64} {write : Element → Element}
      (pc : s.pc thread = .testFree ticket write)
      (mismatch : freeTurn capacity ticket ≠ (s.slots (getSlot capacity ticket)).turn) :
      Advances capacity s thread (s.setPc thread (.reloadHead ticket write)) []
  | winHead {write : Element → Element} (pc : s.pc thread = .casHead s.head write) :
      Advances capacity s thread
        ({ s with head := s.head + 1 }.setPc thread (.construct s.head write .returnTrue))
        [.claimedHead thread s.head 1]
  | loseHead {ticket : UInt64} {write : Element → Element}
      (pc : s.pc thread = .casHead ticket write) (moved : s.head ≠ ticket) :
      Advances capacity s thread (s.setPc thread (.testFree s.head write)) []
  | giveUpHead {write : Element → Element} (pc : s.pc thread = .reloadHead s.head write) :
      Advances capacity s thread (s.setPc thread .idle) [.returned thread (.bool false)]
  | retryHead {ticket : UInt64} {write : Element → Element}
      (pc : s.pc thread = .reloadHead ticket write) (moved : s.head ≠ ticket) :
      Advances capacity s thread (s.setPc thread (.testFree ticket write)) []
  | construct {ticket : UInt64} {write : Element → Element} {after : AfterPush Element}
      (pc : s.pc thread = .construct ticket write after) :
      Advances capacity s thread
        ((s.setSlot (getSlot capacity ticket)
          ((s.slots (getSlot capacity ticket)).construct ticket write)).setPc thread
            (.publish ticket after))
        [.constructed thread ticket (write (s.slots (getSlot capacity ticket)).data)]
  | publish {ticket : UInt64} {after : AfterPush Element}
      (pc : s.pc thread = .publish ticket after) :
      Advances capacity s thread
        ((s.setSlot (getSlot capacity ticket)
          ((s.slots (getSlot capacity ticket)).setTurn (fullTurn capacity ticket))).setPc thread
            (after.next thread (ticket + 1)).1)
        (after.next thread (ticket + 1)).2
  | fetchTail {change : Element → Element} (pc : s.pc thread = .fetchTail change) :
      Advances capacity s thread
        ({ s with tail := s.tail + 1 }.setPc thread (.awaitFull s.tail change))
        [.claimedTail thread s.tail]
  | enterFull {ticket : UInt64} {change : Element → Element}
      (pc : s.pc thread = .awaitFull ticket change)
      (matched : fullTurn capacity ticket = (s.slots (getSlot capacity ticket)).turn) :
      Advances capacity s thread (s.setPc thread (.read ticket change (.done .unit))) []
  | spinFull {ticket : UInt64} {change : Element → Element}
      (pc : s.pc thread = .awaitFull ticket change)
      (mismatch : fullTurn capacity ticket ≠ (s.slots (getSlot capacity ticket)).turn) :
      Advances capacity s thread s []
  | loadTail {attempt : Attempt} {change : Element → Element}
      (pc : s.pc thread = .loadTail attempt change) :
      Advances capacity s thread (s.setPc thread (.testFull attempt change s.tail 0)) []
  | matchFull {attempt : Attempt} {change : Element → Element} {ticket : UInt64} {count : Nat}
      (pc : s.pc thread = .testFull attempt change ticket count)
      (matched : fullTurn capacity ticket = (s.slots (getSlot capacity ticket)).turn) :
      Advances capacity s thread (s.setPc thread (.casTail attempt change ticket count)) []
  | missFull {attempt : Attempt} {change : Element → Element} {ticket : UInt64} {count : Nat}
      (pc : s.pc thread = .testFull attempt change ticket count)
      (mismatch : fullTurn capacity ticket ≠ (s.slots (getSlot capacity ticket)).turn) :
      Advances capacity s thread (s.setPc thread (.reloadTail attempt change ticket count)) []
  | winTail {attempt : Attempt} {change : Element → Element} {count : Nat}
      (pc : s.pc thread = .casTail attempt change s.tail count) :
      Advances capacity s thread
        ({ s with tail := s.tail + 1 }.setPc thread
          (.read s.tail change (attempt.after change count)))
        [.claimedTail thread s.tail]
  | loseTail {attempt : Attempt} {change : Element → Element} {ticket : UInt64} {count : Nat}
      (pc : s.pc thread = .casTail attempt change ticket count) (moved : s.tail ≠ ticket) :
      Advances capacity s thread (s.setPc thread (.testFull attempt change s.tail count)) []
  | giveUpTail {attempt : Attempt} {change : Element → Element} {count : Nat}
      (pc : s.pc thread = .reloadTail attempt change s.tail count) :
      Advances capacity s thread (s.setPc thread .idle) [.returned thread (attempt.giveUp count)]
  | retryTail {attempt : Attempt} {change : Element → Element} {ticket : UInt64} {count : Nat}
      (pc : s.pc thread = .reloadTail attempt change ticket count) (moved : s.tail ≠ ticket) :
      Advances capacity s thread
        (s.setPc thread (.testFull attempt change (attempt.retry ticket s.tail) count)) []
  | read {ticket : UInt64} {change : Element → Element} {after : AfterPop Element}
      (pc : s.pc thread = .read ticket change after) :
      Advances capacity s thread
        ((s.setSlot (getSlot capacity ticket)
          ((s.slots (getSlot capacity ticket)).use change)).setPc thread (.destroy ticket after))
        [.read thread ticket (s.slots (getSlot capacity ticket)).data]
  | destroy {ticket : UInt64} {after : AfterPop Element}
      (pc : s.pc thread = .destroy ticket after) :
      Advances capacity s thread
        ((s.setSlot (getSlot capacity ticket)
          (s.slots (getSlot capacity ticket)).destroy).setPc thread (.release ticket after))
        [.destroyed (getSlot capacity ticket) (s.slots (getSlot capacity ticket)).object]
  | release {ticket : UInt64} {after : AfterPop Element}
      (pc : s.pc thread = .release ticket after) :
      Advances capacity s thread
        ((s.setSlot (getSlot capacity ticket)
          ((s.slots (getSlot capacity ticket)).setTurn (releasedTurn capacity ticket))).setPc thread
            (after.next thread ticket).1)
        (after.next thread ticket).2

/-- There are no others. -/
theorem advances_of_advance (step : advance capacity s thread (s.pc thread) = some (next, events)) :
    Advances capacity s thread next events := by
  cases pc : s.pc thread <;> rw [pc] at step <;> simp only [advance] at step
  case idle => cases step
  case fetchHead =>
    cases step
    exact .fetchHead pc
  case awaitFree =>
    split at step <;> cases step
    · exact .enterFree pc ‹_›
    · exact .spinFree pc ‹_›
  case loadHead =>
    cases step
    exact .loadHead pc
  case testFree =>
    split at step <;> cases step
    · exact .matchFree pc ‹_›
    · exact .missFree pc ‹_›
  case casHead =>
    split at step <;> rename_i same <;> cases step
    · subst same
      exact .winHead pc
    · exact .loseHead pc same
  case reloadHead =>
    split at step <;> rename_i same <;> cases step
    · subst same
      exact .giveUpHead pc
    · exact .retryHead pc same
  case construct =>
    cases step
    exact .construct pc
  case publish =>
    cases step
    exact .publish pc
  case fetchTail =>
    cases step
    exact .fetchTail pc
  case awaitFull =>
    split at step <;> cases step
    · exact .enterFull pc ‹_›
    · exact .spinFull pc ‹_›
  case loadTail =>
    cases step
    exact .loadTail pc
  case testFull =>
    split at step <;> cases step
    · exact .matchFull pc ‹_›
    · exact .missFull pc ‹_›
  case casTail =>
    split at step <;> rename_i same <;> cases step
    · subst same
      exact .winTail pc
    · exact .loseTail pc same
  case reloadTail =>
    split at step <;> rename_i same <;> cases step
    · subst same
      exact .giveUpTail pc
    · exact .retryTail pc same
  case read =>
    cases step
    exact .read pc
  case destroy =>
    cases step
    exact .destroy pc
  case release =>
    cases step
    exact .release pc

/-! ### Every step is a move or two -/

/-- Tickets are claimed in order, as long as the counters do not wrap around. -/
theorem counted_advance (step : advance capacity s thread (s.pc thread) = some (next, events))
    (small : ∀ side, s.count side + (claims side events).length < 2 ^ 63) :
    Counted s next events := by
  cases advances_of_advance step with
  | fetchHead pc =>
    have bounded := small .head
    rw [claims_cons, claims_pushNext, List.append_nil, Event.claimed, if_pos rfl,
      List.length_range'] at bounded
    exact counted_head _ rfl rfl (fun side => claims_pushNext side _ _) bounded
  | winHead pc => exact counted_head 1 rfl rfl (fun _ => rfl) (small .head)
  | fetchTail pc => exact counted_tail rfl rfl (small .tail)
  | winTail pc => exact counted_tail rfl rfl (small .tail)
  | publish pc => exact counted_of_claimsNone rfl rfl fun side => claims_pushNext side _ _
  | release pc => exact counted_of_claimsNone rfl rfl fun side => claims_popNext side _ _
  | _ => exact counted_of_claimsNone rfl rfl fun _ => rfl

theorem stay_setPc {pc : Pc Element} (held : pc.held = (s.pc thread).held)
    (window : pc.window = (s.pc thread).window) :
    Stay (s.board capacity) ((s.setPc thread pc).board capacity) := by
  refine stay_of (fun _ => rfl) (fun side => ?_) (fun other => s.setPc_pc_other thread pc) ?_ ?_
  · cases side <;> rfl
  · rw [State.setPc_pc_self, held]
  · rw [State.setPc_pc_self, window]

/-- A thread inside a window uses the slot. -/
theorem stay_touch {pc : Pc Element} {index : UInt64} {slot : Slot Element}
    (turn : slot.turn = (s.slots index).turn) (held : pc.held = (s.pc thread).held)
    (window : pc.window = (s.pc thread).window) :
    Stay (s.board capacity) (((s.setSlot index slot).setPc thread pc).board capacity) := by
  refine stay_of (fun other => ?_) (fun side => ?_)
    (fun other => (s.setSlot index slot).setPc_pc_other thread pc) ?_ ?_
  · by_cases this : other = index
    · subst this
      rw [State.setPc_slots, State.setSlot_slots_self, turn]
    · rw [State.setPc_slots, State.setSlot_slots_other _ _ _ this]
  · cases side <;> rfl
  · rw [State.setPc_pc_self, held]
  · rw [State.setPc_pc_self, window]

/-- A thread with the first of its tickets finds the turn it waits for. -/
theorem enter_setPc {pc : Pc Element} {side : Side} {i : UInt64} {count : Nat}
    (held : (s.pc thread).held = some (side, i.toNat, count + 1))
    (held' : pc.held = (s.pc thread).held) (outside : (s.pc thread).window = none)
    (window : pc.window = some (side, i.toNat))
    (good : (s.slots (getSlot capacity i)).turn.toNat = (pass capacity side i.toNat).turn) :
    Enter thread (pass capacity side i.toNat) (s.board capacity)
      ((s.setPc thread pc).board capacity) := by
  refine enter_of (fun _ => rfl) (fun side => ?_) (fun other => s.setPc_pc_other thread pc)
    (Holds.of_held held i.toNat_lt) ?_ outside ?_ ?_
  · cases side <;> rfl
  · rw [State.setPc_pc_self, held']
  · rw [State.setPc_pc_self, window]
  · rw [pass_toNat, good]

/-- A thread stores the next turn of the slot whose window it is in. -/
theorem leave_setPc {pc : Pc Element} {side : Side} {i turn : UInt64} {count : Nat}
    (held : (s.pc thread).held = some (side, i.toNat, count + 1))
    (inside : (s.pc thread).window = some (side, i.toNat))
    (held' : ∀ side' ticket, pc.Holds side' ticket ↔
      ticket < 2 ^ 64 ∧ side' = side ∧ i.toNat + 1 ≤ ticket ∧ ticket < i.toNat + 1 + count)
    (window : pc.window = none) (stored : turn.toNat = (pass capacity side i.toNat).turn + 1) :
    Leave thread (pass capacity side i.toNat) (s.board capacity)
      (((s.setSlot (getSlot capacity i) ((s.slots (getSlot capacity i)).setTurn turn)).setPc
        thread pc).board capacity) := by
  refine leave_of ?_ (fun index different => ?_) (fun side => ?_)
    (fun other => State.setPc_pc_other _ thread pc) (Holds.of_held held i.toNat_lt)
    (fun side' ticket => ?_) inside ?_
  · rw [pass_toNat, State.setPc_slots, State.setSlot_slots_self]
    exact stored
  · rw [pass_toNat] at different
    rw [State.setPc_slots, State.setSlot_slots_other _ _ _ different]
  · cases side <;> rfl
  · rw [State.setPc_pc_self, held']
    constructor
    · rintro ⟨small, rfl, low, high⟩
      exact ⟨⟨small, _, _, held, by omega, by omega⟩, fun same => by omega⟩
    · rintro ⟨⟨small, first, more, heldOld, low, high⟩, different⟩
      rw [held] at heldOld
      cases heldOld
      refine ⟨small, rfl, ?_, by omega⟩
      have notThis : ticket ≠ i.toNat := fun same => different ⟨rfl, same⟩
      omega
  · rw [State.setPc_pc_self, window]

/-- A thread that held nothing claims tickets of the head. -/
theorem issue_head (capacity : Capacity) (pc : Pc Element) {more : Nat}
    (heldNone : (s.pc thread).held = none)
    (outside : (s.pc thread).window = none)
    (held : ∀ side ticket, pc.Holds side ticket ↔ ticket < 2 ^ 64 ∧ side = .head ∧
      s.head.toNat ≤ ticket ∧ ticket < s.head.toNat + more)
    (window : pc.window = none) (small : s.head.toNat + more < 2 ^ 63) :
    ∃ passes, Issue thread passes (s.board capacity)
      (({ s with head := s.head + UInt64.ofNat more }.setPc thread pc).board capacity) := by
  refine ⟨_, issue_of .head more (fun _ => rfl) ?_ (fun side different => ?_)
    (fun other => State.setPc_pc_other _ thread pc) heldNone (fun side ticket => ?_) ?_ ?_⟩
  · exact toNat_add_ofNat small
  · cases side
    · exact absurd rfl different
    · rfl
  · rw [State.setPc_pc_self, held, State.count]
    constructor
    · intro held
      exact held.2
    · rintro ⟨same, low, high⟩
      exact ⟨by omega, same, low, high⟩
  · rw [State.setPc_pc_self, window, outside]
  · rw [State.count]
    omega

/-- A thread that held nothing claims the next ticket of the tail. -/
theorem issue_tail (capacity : Capacity) (pc : Pc Element) (heldNone : (s.pc thread).held = none)
    (outside : (s.pc thread).window = none) (held : pc.held = some (.tail, s.tail.toNat, 1))
    (window : pc.window = none) (small : s.tail.toNat + 1 < 2 ^ 63) :
    ∃ passes, Issue thread passes (s.board capacity)
      (({ s with tail := s.tail + 1 }.setPc thread pc).board capacity) := by
  refine ⟨_, issue_of .tail 1 (fun _ => rfl) ?_ (fun side different => ?_)
    (fun other => State.setPc_pc_other _ thread pc) heldNone (fun side ticket => ?_) ?_ ?_⟩
  · exact toNat_add_one small
  · cases side
    · rfl
    · exact absurd rfl different
  · rw [State.setPc_pc_self, Pc.Holds, held, State.count]
    constructor
    · rintro ⟨_, first, count, same, low, high⟩
      cases same
      exact ⟨rfl, low, high⟩
    · rintro ⟨rfl, low, high⟩
      exact ⟨by omega, _, _, rfl, low, high⟩
  · rw [State.setPc_pc_self, window, outside]
  · rw [State.count]
    omega

/-- Every step of a thread is at most two moves of the turnstile. -/
theorem moves_advance (orderly : Orderly (s.board capacity))
    (looked : Looked capacity s (s.pc thread))
    (step : advance capacity s thread (s.pc thread) = some (next, events))
    (small : ∀ side, s.count side + (claims side events).length < 2 ^ 63) :
    ∃ middle, Move (s.board capacity) middle ∧ Move middle (next.board capacity) := by
  have one (move : Move (s.board capacity) (next.board capacity)) :
      ∃ middle, Move (s.board capacity) middle ∧ Move middle (next.board capacity) :=
    ⟨_, move, .stay (stay_refl _)⟩
  have less {side : Side} {i : UInt64} (holds : (s.pc thread).Holds side i.toNat) :
      i.toNat + 1 < 2 ^ 63 := by
    have claimed := lt_count_of_holds orderly holds
    have bounded := small side
    omega
  cases advances_of_advance step with
  | @fetchHead writes pc =>
    have bounded := small .head
    rw [claims_cons, claims_pushNext, List.append_nil, Event.claimed, if_pos rfl,
      List.length_range'] at bounded
    obtain ⟨passes, issue⟩ := issue_head capacity
      ((AfterPush.bulk writes).next thread s.head).1 (by rw [pc]; rfl) (by rw [pc]; rfl)
      (fun _ _ => holds_pushNext) (window_pushNext _ _) bounded
    exact one (.issue issue)
  | @winHead write pc =>
    -- the ticket is claimed and its window entered at once
    obtain ⟨passes, issue⟩ := issue_head capacity (.awaitFree s.head write [])
      (by rw [pc]; rfl) (by rw [pc]; rfl)
      (fun side ticket => holds_awaitFree) rfl (small .head)
    have entered : Enter thread (pass capacity .head s.head.toNat)
        (({ s with head := s.head + 1 }.setPc thread (.awaitFree s.head write [])).board capacity)
        (({ s with head := s.head + 1 }.setPc thread
          (.construct s.head write .returnTrue)).board capacity) := by
      rw [← State.setPc_setPc _ thread (.construct _ _ _) (.awaitFree s.head write [])]
      refine enter_setPc (by rw [State.setPc_pc_self]; rfl) (by rw [State.setPc_pc_self]; rfl)
        (by rw [State.setPc_pc_self]; rfl) rfl ?_
      exact good_of_matched orderly looked (by rw [pc]; rfl) rfl
    exact ⟨_, .issue issue, .enter entered⟩
  | @fetchTail change pc =>
    obtain ⟨passes, issue⟩ := issue_tail capacity (.awaitFull s.tail change) (by rw [pc]; rfl)
      (by rw [pc]; rfl) rfl rfl (small .tail)
    exact one (.issue issue)
  | @winTail attempt change count pc =>
    obtain ⟨passes, issue⟩ := issue_tail capacity (.awaitFull s.tail change) (by rw [pc]; rfl)
      (by rw [pc]; rfl) rfl rfl (small .tail)
    have entered : Enter thread (pass capacity .tail s.tail.toNat)
        (({ s with tail := s.tail + 1 }.setPc thread (.awaitFull s.tail change)).board capacity)
        (({ s with tail := s.tail + 1 }.setPc thread
          (.read s.tail change (attempt.after change count))).board capacity) := by
      rw [← State.setPc_setPc _ thread (.read _ _ _) (.awaitFull s.tail change)]
      refine enter_setPc (by rw [State.setPc_pc_self]; rfl) (by rw [State.setPc_pc_self]; rfl)
        (by rw [State.setPc_pc_self]; rfl) rfl ?_
      exact good_of_matched orderly looked (by rw [pc]; rfl) rfl
    exact ⟨_, .issue issue, .enter entered⟩
  | @enterFree ticket write rest pc matched =>
    have held : (s.pc thread).held = some (.head, ticket.toNat, rest.length + 1) := by
      rw [pc]
      rfl
    refine one (.enter (enter_setPc held (by rw [pc]; rfl) (by rw [pc]; rfl) rfl ?_))
    have small := less (Holds.of_held held ticket.toNat_lt)
    rw [← matched, toNat_freeTurn capacity (by omega), turn_pass_head]
  | @enterFull ticket change pc matched =>
    have held : (s.pc thread).held = some (.tail, ticket.toNat, 1) := by rw [pc]; rfl
    refine one (.enter (enter_setPc held (by rw [pc]; rfl) (by rw [pc]; rfl) rfl ?_))
    have small := less (Holds.of_held held ticket.toNat_lt)
    rw [← matched, toNat_fullTurn capacity (by omega), turn_pass_tail]
  | spinFree pc mismatch => exact one (.stay (stay_refl _))
  | spinFull pc mismatch => exact one (.stay (stay_refl _))
  | construct pc => exact one (.stay (stay_touch rfl (by rw [pc]; rfl) (by rw [pc]; rfl)))
  | read pc => exact one (.stay (stay_touch rfl (by rw [pc]; rfl) (by rw [pc]; rfl)))
  | destroy pc => exact one (.stay (stay_touch rfl (by rw [pc]; rfl) (by rw [pc]; rfl)))
  | @publish ticket after pc =>
    have held : (s.pc thread).held = some (.head, ticket.toNat, after.left + 1) := by rw [pc]; rfl
    have small := less (Holds.of_held held ticket.toNat_lt)
    refine one (.leave (leave_setPc held (by rw [pc]; rfl) (fun side other => ?_)
      (window_pushNext _ _) ?_))
    · rw [holds_pushNext, toNat_add_one small]
    · rw [toNat_fullTurn capacity (by omega), turn_pass_head]
  | @release ticket after pc =>
    have held : (s.pc thread).held = some (.tail, ticket.toNat, 0 + 1) := by rw [pc]; rfl
    have small := less (Holds.of_held held ticket.toNat_lt)
    refine one (.leave (leave_setPc held (by rw [pc]; rfl) (fun side other => ?_)
      (window_popNext _ _) ?_))
    · refine iff_of_false (not_holds_of_none (held_popNext _ _)) ?_
      rintro ⟨_, _, low, high⟩
      omega
    · rw [toNat_releasedTurn capacity small, turn_pass_tail]
  | loadHead pc | matchFree pc | missFree pc | loseHead pc | giveUpHead pc | retryHead pc
  | loadTail pc | matchFull pc | missFull pc | loseTail pc | giveUpTail pc | retryTail pc =>
    exact one (.stay (stay_setPc (by rw [pc]; rfl) (by rw [pc]; rfl)))

/-! ### The invariant of every run -/

theorem pc_advance_other (step : advance capacity s thread (s.pc thread) = some (next, events))
    {other : Thread} (different : other ≠ thread) : next.pc other = s.pc other := by
  cases advances_of_advance step with
  | spinFree pc mismatch => rfl
  | spinFull pc mismatch => rfl
  | _ => exact State.setPc_pc_other _ _ _ different

/-- Where a thread goes, it has looked as well. -/
theorem looked_advance_self (orderly : Orderly (s.board capacity))
    (looked : Looked capacity s (s.pc thread))
    (step : advance capacity s thread (s.pc thread) = some (next, events))
    (small : ∀ side, s.count side < 2 ^ 63) : Looked capacity s (next.pc thread) := by
  have testedBelow {side : Side} {ticket : UInt64}
      (tested : (s.pc thread).tested = some (side, ticket)) : ticket.toNat < 2 ^ 63 :=
    lt_of_le_of_lt (looked.tested side ticket tested) (small side)
  cases advances_of_advance step with
  | @fetchHead writes pc =>
    rw [State.setPc_pc_self]
    cases writes <;> exact looked_of_none rfl rfl
  | loadHead pc | loseHead pc =>
    rw [State.setPc_pc_self]
    exact looked_of_tested rfl rfl (le_refl s.head.toNat)
  | loadTail pc | loseTail pc =>
    rw [State.setPc_pc_self]
    exact looked_of_tested rfl rfl (le_refl s.tail.toNat)
  | @matchFree ticket write pc matched =>
    have tested : (s.pc thread).tested = some (.head, ticket) := by rw [pc]; rfl
    rw [State.setPc_pc_self]
    refine looked_of_matched rfl rfl (looked.tested _ _ tested) ?_
    rw [← matched, toNat_freeTurn capacity (testedBelow tested), turn_pass_head]
  | @matchFull attempt change ticket count pc matched =>
    have tested : (s.pc thread).tested = some (.tail, ticket) := by rw [pc]; rfl
    rw [State.setPc_pc_self]
    refine looked_of_matched rfl rfl (looked.tested _ _ tested) ?_
    rw [← matched, toNat_fullTurn capacity (testedBelow tested), turn_pass_tail]
  | @missFree ticket write pc | @retryHead ticket write pc =>
    have le := looked.tested .head ticket (by rw [pc]; rfl)
    rw [State.setPc_pc_self]
    exact looked_of_tested rfl rfl le
  | @missFull attempt change ticket count pc =>
    have le := looked.tested .tail ticket (by rw [pc]; rfl)
    rw [State.setPc_pc_self]
    exact looked_of_tested rfl rfl le
  | @retryTail attempt change ticket count pc =>
    have le := looked.tested .tail ticket (by rw [pc]; rfl)
    rw [State.setPc_pc_self]
    refine looked_of_tested rfl rfl ?_
    cases attempt
    · exact le
    · exact le_refl s.tail.toNat
  | @publish ticket after pc =>
    rw [State.setPc_pc_self]
    cases after with
    | bulk rest => cases rest <;> exact looked_of_none rfl rfl
    | returnTrue => exact looked_of_none rfl rfl
  | @release ticket after pc =>
    rw [State.setPc_pc_self]
    cases after with
    | done value => exact looked_of_none rfl rfl
    | drain change count =>
      have held : (s.pc thread).held = some (.tail, ticket.toNat, 0 + 1) := by rw [pc]; rfl
      have claimed := lt_count_of_holds orderly (Holds.of_held held ticket.toNat_lt)
      have bounded := small .tail
      refine looked_of_tested (rfl : _ = some (Side.tail, ticket + 1)) rfl ?_
      rw [toNat_add_one (by omega)]
      exact claimed
  | spinFree pc | spinFull pc =>
    rw [pc]
    exact looked_of_none rfl rfl
  | _ =>
    rw [State.setPc_pc_self]
    exact looked_of_none rfl rfl

variable {trace : List (Event Thread Element)} {moved : Element → Element}

/-- A step inside an operation keeps the invariant. -/
theorem sound_advance (sound : Sound capacity s trace)
    (step : advance capacity s thread (s.pc thread) = some (next, events))
    (few : FewTickets (trace ++ events)) : Sound capacity next (trace ++ events) := by
  have small := sound.small few
  have counted := counted_advance step small
  obtain ⟨middle, first, second⟩ :=
    moves_advance sound.orderly (sound.looked thread) step small
  have halfway := orderly_move sound.orderly first
  have turns (index : UInt64) : (s.slots index).turn.toNat ≤ (next.slots index).turn.toNat :=
    le_trans (turn_mono sound.orderly first index) (turn_mono halfway second index)
  have counts (side : Side) : s.count side ≤ next.count side := by
    rw [(counted side).1]
    exact Nat.le_add_right _ _
  refine ⟨orderly_move halfway second, fun other => ?_, fun side => ?_⟩
  · by_cases this : other = thread
    · subst this
      have looked := looked_advance_self sound.orderly (sound.looked other) step
        fun side => lt_of_le_of_lt (Nat.le_add_right _ _) (small side)
      exact looked.mono counts turns
    · rw [pc_advance_other step this]
      exact (sound.looked other).mono counts turns
  · obtain ⟨count, tickets⟩ := counted side
    rw [claims_append, sound.claimed side, tickets, count, List.range_eq_range',
      List.range_eq_range']
    have joined := @List.range'_append_1 0 (s.count side) (claims side events).length
    rw [Nat.zero_add] at joined
    exact joined

/-- An idle thread that calls an operation holds nothing yet. -/
theorem sound_call (sound : Sound capacity s trace) (op : Op Element)
    (idle : s.pc thread = .idle) :
    Sound capacity (s.setPc thread (op.entry moved)) (trace ++ [.called thread op]) := by
  refine ⟨orderly_stay sound.orderly (stay_setPc ?_ ?_), fun other => ?_, fun side => ?_⟩
  · rw [idle]
    cases op <;> rfl
  · rw [idle]
    cases op <;> rfl
  · by_cases this : other = thread
    · subst this
      rw [State.setPc_pc_self]
      cases op <;> exact looked_of_none rfl rfl
    · rw [State.setPc_pc_other _ _ _ this]
      exact (sound.looked other).mono (fun side => by cases side <;> exact le_refl _)
        fun _ => le_refl _
  · rw [claims_append, sound.claimed side]
    cases side <;> exact List.append_nil _

/-- The actions of the system: a call of an idle thread, or a step inside an operation. -/
theorem system_cases {action : Action Thread Element}
    (step : system capacity moved s action = some (next, events)) :
    (∃ thread op, s.pc thread = .idle ∧ next = s.setPc thread (op.entry moved) ∧
      events = [.called thread op]) ∨
    ∃ thread, advance capacity s thread (s.pc thread) = some (next, events) := by
  cases action with
  | step thread => exact Or.inr ⟨thread, step⟩
  | call thread op =>
    refine Or.inl ⟨thread, op, ?_⟩
    rw [system] at step
    split at step
    · rename_i idle
      cases step
      exact ⟨idle, rfl, rfl⟩
    · cases step

/-- The invariant holds in every run with fewer than `2 ^ 63` tickets. -/
theorem sound_of_reaches {bytes : UInt64 → Element}
    (run : Transitions.Reaches (system capacity moved) (start bytes) s trace)
    (few : FewTickets trace) : Sound capacity s trace := by
  refine run.invariant (fun s trace => FewTickets trace → Sound capacity s trace)
    (fun _ => sound_start capacity bytes) ?_ few
  intro s trace action next events _ inductionHypothesis step few
  have sound := inductionHypothesis few.of_append
  rcases system_cases step with ⟨thread, op, idle, rfl, rfl⟩ | ⟨thread, step⟩
  · exact sound_call sound op idle
  · exact sound_advance sound step few

end MPMCQueue

end Sheep
