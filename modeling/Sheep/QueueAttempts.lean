/-
This file runs `try_emplace` and `try_pop` on their own. A failed exchange of the
counter refreshes the ticket that a thread tries, but a failed test of the turn
does not. A thread that still has an old ticket, whose turn is not the slot's,
tests the same slot again and again; from everywhere else it returns.
-/

import Sheep.QueueCalls

namespace Sheep

open Transitions

namespace MPMCQueue

variable {Thread Element : Type} [DecidableEq Thread] {capacity : Capacity}
  {moved : Element → Element} {s next : State Thread Element} {thread : Thread}
  {events : List (Event Thread Element)} {bound : Nat}

/-! ### Running alone -/

/-- The operations that try once. -/
def Op.Tries : Op Element → Prop
  | .tryEmplace _ => True
  | .tryPop => True
  | _ => False

/-- If only the thread takes steps, its call returns true or false within so many of them. -/
def ReturnsAlone (capacity : Capacity) (moved : Element → Element) (s : State Thread Element)
    (thread : Thread) (bound : Nat) : Prop :=
  ∃ steps ≤ bound, ∃ next events value,
    execute (system capacity moved) s (List.replicate steps (.step thread)) =
      some (next, events) ∧
    next.pc thread = .idle ∧ .returned thread (.bool value) ∈ events

/-- The ticket the thread tries is not the counter any more, and it is not its turn. -/
def Stale (capacity : Capacity) (s : State Thread Element) : Pc Element → Prop
  | .testFree ticket _ => s.head ≠ ticket ∧
      freeTurn capacity ticket ≠ (s.slots (getSlot capacity ticket)).turn
  | .reloadHead ticket _ => s.head ≠ ticket ∧
      freeTurn capacity ticket ≠ (s.slots (getSlot capacity ticket)).turn
  | .testFull .one _ ticket _ => s.tail ≠ ticket ∧
      fullTurn capacity ticket ≠ (s.slots (getSlot capacity ticket)).turn
  | .reloadTail .one _ ticket _ => s.tail ≠ ticket ∧
      fullTurn capacity ticket ≠ (s.slots (getSlot capacity ticket)).turn
  | _ => False

/-- Within so many steps, or more. -/
theorem ReturnsAlone.mono {more : Nat} (returns : ReturnsAlone capacity moved s thread bound)
    (le : bound ≤ more) : ReturnsAlone capacity moved s thread more := by
  obtain ⟨steps, few, rest⟩ := returns
  exact ⟨steps, le_trans few le, rest⟩

/-- The last step. -/
theorem returnsAlone_last {value : Bool}
    (step : system capacity moved s (.step thread) = some (next, events))
    (idle : next.pc thread = .idle) (told : .returned thread (.bool value) ∈ events) :
    ReturnsAlone capacity moved s thread 1 := by
  refine ⟨1, le_refl 1, next, events ++ [], value, ?_, idle, List.mem_append_left _ told⟩
  rw [List.replicate_one]
  exact execute_cons step rfl

/-- A step before. -/
theorem returnsAlone_after
    (step : system capacity moved s (.step thread) = some (next, events))
    (returns : ReturnsAlone capacity moved next thread bound) :
    ReturnsAlone capacity moved s thread (bound + 1) := by
  obtain ⟨steps, few, last, told, value, executed, idle, member⟩ := returns
  refine ⟨steps + 1, Nat.succ_le_succ few, last, events ++ told, value, ?_, idle,
    List.mem_append_right _ member⟩
  rw [List.replicate_succ]
  exact execute_cons step executed

theorem step_eq {pc : Pc Element} (at_pc : s.pc thread = pc) :
    system capacity moved s (.step thread) = advance capacity s thread pc := by
  rw [← at_pc]
  rfl

/-! ### Producers -/

theorem returns_publish {ticket : UInt64} (pc : s.pc thread = .publish ticket .returnTrue) :
    ReturnsAlone capacity moved s thread 1 :=
  returnsAlone_last (step_eq pc) (State.setPc_pc_self _ _ _) List.mem_cons_self

theorem returns_construct {ticket : UInt64} {write : Element → Element}
    (pc : s.pc thread = .construct ticket write .returnTrue) :
    ReturnsAlone capacity moved s thread 2 :=
  returnsAlone_after (step_eq pc) (returns_publish (State.setPc_pc_self _ _ _))

/-- The exchange succeeds where the ticket is the counter. -/
theorem returns_casHead_fresh {write : Element → Element}
    (pc : s.pc thread = .casHead s.head write) : ReturnsAlone capacity moved s thread 3 := by
  exact returnsAlone_after ((step_eq pc).trans (if_pos rfl))
    (returns_construct (State.setPc_pc_self _ _ _))

theorem returns_reloadHead_fresh {write : Element → Element}
    (pc : s.pc thread = .reloadHead s.head write) : ReturnsAlone capacity moved s thread 1 := by
  exact returnsAlone_last ((step_eq pc).trans (if_pos rfl)) (State.setPc_pc_self _ _ _)
    List.mem_cons_self

theorem returns_testFree_fresh {write : Element → Element}
    (pc : s.pc thread = .testFree s.head write) : ReturnsAlone capacity moved s thread 4 := by
  by_cases turn : freeTurn capacity s.head = (s.slots (getSlot capacity s.head)).turn
  · exact returnsAlone_after ((step_eq pc).trans (if_pos turn))
      (returns_casHead_fresh (State.setPc_pc_self _ _ _))
  · exact (returnsAlone_after ((step_eq pc).trans (if_neg turn))
      (returns_reloadHead_fresh (State.setPc_pc_self _ _ _))).mono (by decide)

theorem returns_loadHead {write : Element → Element} (pc : s.pc thread = .loadHead write) :
    ReturnsAlone capacity moved s thread 5 :=
  returnsAlone_after (step_eq pc) (returns_testFree_fresh (State.setPc_pc_self _ _ _))

/-- A failed exchange refreshes the ticket. -/
theorem returns_casHead {ticket : UInt64} {write : Element → Element}
    (pc : s.pc thread = .casHead ticket write) : ReturnsAlone capacity moved s thread 5 := by
  by_cases fresh : s.head = ticket
  · subst fresh
    exact (returns_casHead_fresh pc).mono (by decide)
  · exact returnsAlone_after ((step_eq pc).trans (if_neg fresh))
      (returns_testFree_fresh (State.setPc_pc_self _ _ _))

theorem returns_testFree {ticket : UInt64} {write : Element → Element}
    (pc : s.pc thread = .testFree ticket write) (live : ¬ Stale capacity s (s.pc thread)) :
    ReturnsAlone capacity moved s thread 6 := by
  by_cases fresh : s.head = ticket
  · subst fresh
    exact (returns_testFree_fresh pc).mono (by decide)
  · have turn : freeTurn capacity ticket = (s.slots (getSlot capacity ticket)).turn := by
      rw [pc] at live
      exact not_not.mp fun other => live ⟨fresh, other⟩
    exact returnsAlone_after ((step_eq pc).trans (if_pos turn))
      (returns_casHead (State.setPc_pc_self _ _ _))

theorem returns_reloadHead {ticket : UInt64} {write : Element → Element}
    (pc : s.pc thread = .reloadHead ticket write) (live : ¬ Stale capacity s (s.pc thread)) :
    ReturnsAlone capacity moved s thread 7 := by
  by_cases fresh : s.head = ticket
  · subst fresh
    exact (returns_reloadHead_fresh pc).mono (by decide)
  · refine returnsAlone_after ((step_eq pc).trans (if_neg fresh))
      (returns_testFree (State.setPc_pc_self _ _ _) ?_)
    rw [State.setPc_pc_self]
    rw [pc] at live
    exact live

/-! ### Consumers -/

theorem returns_release {ticket : UInt64}
    (pc : s.pc thread = .release ticket (.done (.bool true))) :
    ReturnsAlone capacity moved s thread 1 :=
  returnsAlone_last (step_eq pc) (State.setPc_pc_self _ _ _) List.mem_cons_self

theorem returns_destroy {ticket : UInt64}
    (pc : s.pc thread = .destroy ticket (.done (.bool true))) :
    ReturnsAlone capacity moved s thread 2 :=
  returnsAlone_after (step_eq pc) (returns_release (State.setPc_pc_self _ _ _))

theorem returns_read {ticket : UInt64} {change : Element → Element}
    (pc : s.pc thread = .read ticket change (.done (.bool true))) :
    ReturnsAlone capacity moved s thread 3 :=
  returnsAlone_after (step_eq pc) (returns_destroy (State.setPc_pc_self _ _ _))

theorem returns_casTail_fresh {change : Element → Element} {count : Nat}
    (pc : s.pc thread = .casTail .one change s.tail count) :
    ReturnsAlone capacity moved s thread 4 := by
  exact returnsAlone_after ((step_eq pc).trans (if_pos rfl))
    (returns_read (State.setPc_pc_self _ _ _))

theorem returns_reloadTail_fresh {change : Element → Element} {count : Nat}
    (pc : s.pc thread = .reloadTail .one change s.tail count) :
    ReturnsAlone capacity moved s thread 1 := by
  exact returnsAlone_last ((step_eq pc).trans (if_pos rfl)) (State.setPc_pc_self _ _ _)
    List.mem_cons_self

theorem returns_testFull_fresh {change : Element → Element} {count : Nat}
    (pc : s.pc thread = .testFull .one change s.tail count) :
    ReturnsAlone capacity moved s thread 5 := by
  by_cases turn : fullTurn capacity s.tail = (s.slots (getSlot capacity s.tail)).turn
  · exact returnsAlone_after ((step_eq pc).trans (if_pos turn))
      (returns_casTail_fresh (State.setPc_pc_self _ _ _))
  · exact (returnsAlone_after ((step_eq pc).trans (if_neg turn))
      (returns_reloadTail_fresh (State.setPc_pc_self _ _ _))).mono (by decide)

theorem returns_loadTail {change : Element → Element}
    (pc : s.pc thread = .loadTail .one change) : ReturnsAlone capacity moved s thread 6 :=
  returnsAlone_after (step_eq pc) (returns_testFull_fresh (State.setPc_pc_self _ _ _))

theorem returns_casTail {ticket : UInt64} {change : Element → Element} {count : Nat}
    (pc : s.pc thread = .casTail .one change ticket count) :
    ReturnsAlone capacity moved s thread 6 := by
  by_cases fresh : s.tail = ticket
  · subst fresh
    exact (returns_casTail_fresh pc).mono (by decide)
  · exact returnsAlone_after ((step_eq pc).trans (if_neg fresh))
      (returns_testFull_fresh (State.setPc_pc_self _ _ _))

theorem returns_testFull {ticket : UInt64} {change : Element → Element} {count : Nat}
    (pc : s.pc thread = .testFull .one change ticket count)
    (live : ¬ Stale capacity s (s.pc thread)) : ReturnsAlone capacity moved s thread 7 := by
  by_cases fresh : s.tail = ticket
  · subst fresh
    exact (returns_testFull_fresh pc).mono (by decide)
  · have turn : fullTurn capacity ticket = (s.slots (getSlot capacity ticket)).turn := by
      rw [pc] at live
      exact not_not.mp fun other => live ⟨fresh, other⟩
    exact returnsAlone_after ((step_eq pc).trans (if_pos turn))
      (returns_casTail (State.setPc_pc_self _ _ _))

theorem returns_reloadTail {ticket : UInt64} {change : Element → Element} {count : Nat}
    (pc : s.pc thread = .reloadTail .one change ticket count)
    (live : ¬ Stale capacity s (s.pc thread)) : ReturnsAlone capacity moved s thread 8 := by
  by_cases fresh : s.tail = ticket
  · subst fresh
    exact (returns_reloadTail_fresh pc).mono (by decide)
  · refine returnsAlone_after ((step_eq pc).trans (if_neg fresh))
      (returns_testFull (State.setPc_pc_self _ _ _) ?_)
    rw [State.setPc_pc_self]
    rw [pc] at live
    exact live

/-! ### Calls -/

theorem after_of_tryPush {after : AfterPush Element} (manner : after.manner = .tryPush) :
    after = .returnTrue := by
  cases after with
  | bulk rest => cases manner
  | returnTrue => rfl

theorem after_of_attemptOne {after : AfterPop Element}
    (manner : after.manner = some (.attempt .one)) : after = .done (.bool true) := by
  cases after with
  | drain change count => cases manner
  | done value =>
    cases value with
    | unit => cases manner
    | count count => cases manner
    | bool value =>
      cases value with
      | false => cases manner
      | true => rfl

theorem popManner_ne_tryPush (after : AfterPop Element) : after.manner ≠ some .tryPush := by
  intro manner
  cases after with
  | drain change count => cases manner
  | done value =>
    cases value with
    | unit => cases manner
    | count count => cases manner
    | bool value => cases value <;> cases manner

/-- Everywhere else `try_emplace` returns. -/
theorem returns_of_tryPush (manner : (s.pc thread).manner = some .tryPush)
    (live : ¬ Stale capacity s (s.pc thread)) : ReturnsAlone capacity moved s thread 8 := by
  cases pc : s.pc thread <;> rw [pc] at manner
  case loadHead => exact (returns_loadHead pc).mono (by decide)
  case testFree => exact (returns_testFree pc live).mono (by decide)
  case casHead => exact (returns_casHead pc).mono (by decide)
  case reloadHead => exact (returns_reloadHead pc live).mono (by decide)
  case construct ticket write after =>
    rw [after_of_tryPush (Option.some.inj manner)] at pc
    exact (returns_construct pc).mono (by decide)
  case publish ticket after =>
    rw [after_of_tryPush (Option.some.inj manner)] at pc
    exact (returns_publish pc).mono (by decide)
  case read ticket change after => exact absurd manner (popManner_ne_tryPush after)
  case destroy ticket after => exact absurd manner (popManner_ne_tryPush after)
  case release ticket after => exact absurd manner (popManner_ne_tryPush after)
  all_goals cases manner

/-- And so does `try_pop`. -/
theorem returns_of_attemptOne (manner : (s.pc thread).manner = some (.attempt .one))
    (live : ¬ Stale capacity s (s.pc thread)) : ReturnsAlone capacity moved s thread 8 := by
  cases pc : s.pc thread <;> rw [pc] at manner
  case loadTail attempt change =>
    cases manner
    exact (returns_loadTail pc).mono (by decide)
  case testFull attempt change ticket count =>
    cases manner
    exact (returns_testFull pc live).mono (by decide)
  case casTail attempt change ticket count =>
    cases manner
    exact (returns_casTail pc).mono (by decide)
  case reloadTail attempt change ticket count =>
    cases manner
    exact returns_reloadTail pc live
  case read ticket change after =>
    rw [after_of_attemptOne manner] at pc
    exact (returns_read pc).mono (by decide)
  case destroy ticket after =>
    rw [after_of_attemptOne manner] at pc
    exact (returns_destroy pc).mono (by decide)
  case release ticket after =>
    rw [after_of_attemptOne manner] at pc
    exact (returns_release pc).mono (by decide)
  case construct ticket write after => cases after <;> cases manner
  case publish ticket after => cases after <;> cases manner
  all_goals cases manner

/-! ### Spinning -/

/-- A thread with a stale ticket goes from its test to its reload and back, and nothing happens. -/
theorem stale_step (moved : Element → Element) (stale : Stale capacity s (s.pc thread)) :
    ∃ next, system capacity moved s (.step thread) = some (next, []) ∧
      Stale capacity next (next.pc thread) := by
  cases pc : s.pc thread <;> rw [pc] at stale
  case testFree ticket write =>
    refine ⟨_, (step_eq pc).trans (if_neg stale.2), ?_⟩
    rw [State.setPc_pc_self]
    exact stale
  case reloadHead ticket write =>
    refine ⟨_, (step_eq pc).trans (if_neg stale.1), ?_⟩
    rw [State.setPc_pc_self]
    exact stale
  case testFull attempt change ticket count =>
    cases attempt with
    | one =>
      refine ⟨_, (step_eq pc).trans (if_neg stale.2), ?_⟩
      rw [State.setPc_pc_self]
      exact stale
    | many => exact absurd stale id
  case reloadTail attempt change ticket count =>
    cases attempt with
    | one =>
      refine ⟨_, (step_eq pc).trans (if_neg stale.1), ?_⟩
      rw [State.setPc_pc_self]
      exact stale
    | many => exact absurd stale id
  all_goals exact absurd stale id

/-- It does so for ever. -/
theorem stale_execute {steps : Nat} (stale : Stale capacity s (s.pc thread))
    (executed : execute (system capacity moved) s (List.replicate steps (.step thread)) =
      some (next, events)) : events = [] := by
  induction steps generalizing s events with
  | zero =>
    cases executed
    rfl
  | succ steps inductionHypothesis =>
    obtain ⟨middle, step, stillStale⟩ := stale_step moved stale
    rw [List.replicate_succ, execute, step] at executed
    obtain ⟨⟨reached, later⟩, rest, same⟩ := Option.map_eq_some_iff.mp executed
    cases same
    exact inductionHypothesis stillStale rest

theorem not_returnsAlone_of_stale (stale : Stale capacity s (s.pc thread)) :
    ¬ ReturnsAlone capacity moved s thread bound := by
  rintro ⟨steps, _, next, events, value, executed, _, told⟩
  rw [stale_execute stale executed] at told
  cases told

variable {trace : List (Event Thread Element)} {bytes : UInt64 → Element}

/-- A call of `try_emplace` or `try_pop` returns on its own just when its ticket is not stale, and
then within eight steps. -/
theorem returnsAlone_iff
    (run : Reaches (system capacity moved) (start bytes) s trace) {op : Op Element}
    (call : callOf thread trace = some op) (tries : op.Tries) :
    (ReturnsAlone capacity moved s thread 8 ↔ ¬ Stale capacity s (s.pc thread)) ∧
      (Stale capacity s (s.pc thread) → ∀ bound, ¬ ReturnsAlone capacity moved s thread bound) := by
  refine ⟨⟨fun returns stale => not_returnsAlone_of_stale stale returns, fun live => ?_⟩,
    fun stale bound => not_returnsAlone_of_stale stale⟩
  have manner := manner_of_callOf run call
  cases op with
  | tryEmplace element => exact returns_of_tryPush manner live
  | tryPop => exact returns_of_attemptOne manner live
  | _ => exact absurd tries id

section Example

/-- A thread has loaded the counter, and another one pushes an element before it goes on. -/
def overtaken : List (Action Bool Nat) :=
  [.call false (.tryEmplace 7), .step false, .call true (.emplace 8), .step true, .step true,
    .step true, .step true]

def overtook : List (Event Bool Nat) :=
  [.called false (.tryEmplace 7), .called true (.emplace 8), .claimedHead true 0 1,
    .constructed true 0 8, .returned true .unit]

/-- The thread that has been overtaken spins for ever. -/
theorem not_returnsAlone_overtaken : ∃ s trace,
    Reaches (system oneSlot id) (start fun _ => 0) s trace ∧ FewTickets trace ∧
      callOf false trace = some (.tryEmplace 7) ∧
      ¬ ∃ bound, ReturnsAlone oneSlot id s false bound := by
  have traced : (execute (system oneSlot id) (start fun _ => 0) overtaken).map
      (fun reached => (reached.1.pc false, reached.1.head, (reached.1.slots 0).turn, reached.2)) =
        some (.testFree 0 fun _ => 7, 1, 1, overtook) := rfl
  obtain ⟨⟨s, trace⟩, executed, same⟩ := Option.map_eq_some_iff.mp traced
  obtain ⟨pc, same⟩ := Prod.mk.inj same
  obtain ⟨head, same⟩ := Prod.mk.inj same
  obtain ⟨turn, rfl⟩ := Prod.mk.inj same
  refine ⟨s, overtook, reaches_of_execute executed, fun side => by cases side <;> decide, rfl, ?_⟩
  rintro ⟨bound, returns⟩
  refine not_returnsAlone_of_stale ?_ returns
  rw [pc]
  refine ⟨by rw [head]; decide, ?_⟩
  have slot : getSlot oneSlot 0 = 0 := rfl
  rw [slot, turn]
  decide

/-- A thread that is alone pushes an element. -/
theorem returnsAlone_iff_alone : ∃ s,
    execute (system oneSlot id) (start fun _ => 0)
      [.call false (.tryEmplace 7), .step false] = some (s, [.called false (.tryEmplace 7)]) ∧
    ((ReturnsAlone oneSlot id s false 8 ↔ ¬ Stale oneSlot s (s.pc false)) ∧
      (Stale oneSlot s (s.pc false) → ∀ bound, ¬ ReturnsAlone oneSlot id s false bound)) := by
  have traced : (execute (system oneSlot id) (start fun _ => 0)
      [.call false (.tryEmplace 7), .step false]).map (·.2) =
        some ([.called false (.tryEmplace 7)] : List (Event Bool Nat)) := rfl
  obtain ⟨⟨s, trace⟩, executed, same⟩ := Option.map_eq_some_iff.mp traced
  cases same
  exact ⟨s, executed, returnsAlone_iff (reaches_of_execute executed) rfl trivial⟩

end Example

end MPMCQueue

end Sheep
