/-
This file proves the life cycle of the slots. At most one thread is inside the
window of a slot; outside windows a slot with an odd turn holds an element and
one with an even turn is raw; elements are constructed in raw slots, and moved
and destroyed where one lives. So `~MPMCQueue`, which destroys by the parity of
the turns, leaves every element that was ever constructed destroyed once.
-/

import Mathlib.Algebra.BigOperators.Group.List.Basic
import Sheep.QueueDelivery

namespace Sheep

open Turnstile

namespace MPMCQueue

variable {Thread Element : Type} {capacity : Capacity} {index : UInt64}
  {s : State Thread Element} {trace : List (Event Thread Element)}

/-! ### Destructions -/

/-- In the story of a slot the elements of its own tickets are destroyed. -/
theorem Story.destroyed_of_mem {lap : Nat} {phase : Phase Element}
    {events : List (Event Thread Element)} (told : Story capacity index lap phase events)
    {index' : UInt64} {object : Option UInt64} (member : .destroyed index' object ∈ events) :
    ∃ ticket, object = some ticket ∧ getSlot capacity ticket = index := by
  induction told with
  | fresh => cases member
  | construct told place lap inductionHypothesis =>
    refine inductionHypothesis ((List.mem_append.mp member).resolve_right fun last => ?_)
    cases List.mem_singleton.mp last
  | read told inductionHypothesis =>
    refine inductionHypothesis ((List.mem_append.mp member).resolve_right fun last => ?_)
    cases List.mem_singleton.mp last
  | destroy told inductionHypothesis =>
    rcases List.mem_append.mp member with old | last
    · exact inductionHypothesis old
    · cases List.mem_singleton.mp last
      exact ⟨_, rfl, told.ticket_of_used.1⟩

theorem destroyed_of_mem (tended : AllTended capacity s trace) {object : Option UInt64}
    (member : .destroyed index object ∈ trace) :
    ∃ ticket, object = some ticket ∧ getSlot capacity ticket = index := by
  obtain ⟨lap, phase, told⟩ := exists_story tended index
  exact told.destroyed_of_mem (List.mem_filter.mpr ⟨member, beq_self_eq_true (some index)⟩)

theorem countP_destroys (tended : AllTended capacity s trace) (ticket : UInt64) :
    (story capacity (getSlot capacity ticket) trace).countP (Event.destroys ticket) =
      trace.countP (Event.destroys ticket) := by
  refine countP_story fun event member happened => ?_
  cases event <;> simp only [Event.destroys, Bool.false_eq_true, beq_iff_eq] at happened
  obtain ⟨ticket', same, place⟩ := destroyed_of_mem tended member
  rw [happened] at same
  cases same
  rw [Event.slot, place]

/-! ### Elements and turns -/

/-- What lives in a slot has been constructed there and not been destroyed. -/
theorem live_of_object (tended : AllTended capacity s trace) {ticket : UInt64}
    (lives : (s.slots index).object = some ticket) :
    getSlot capacity ticket = index ∧ trace.countP (Event.constructs ticket) = 1 ∧
      trace.countP (Event.destroys ticket) = 0 := by
  obtain ⟨stage, here⟩ := exists_stage capacity s index
  obtain ⟨lap, phase, told, fits⟩ := tended index stage here
  have counted (begun : phase.begun = 1)
      (given : getSlot capacity ticket = index ∧ ticket.toNat / capacity.value.toNat = lap) :
      getSlot capacity ticket = index ∧ trace.countP (Event.constructs ticket) = 1 ∧
        trace.countP (Event.destroys ticket) = 0 := by
    obtain ⟨rfl, sameLap⟩ := given
    obtain ⟨constructed, _, destroyed⟩ := told.counts rfl
    rw [countP_story fun _ _ => slot_of_constructs, begun, if_pos (by omega)] at constructed
    rw [countP_destroys tended, if_neg (by omega)] at destroyed
    exact ⟨rfl, constructed, destroyed⟩
  cases phase with
  | raw =>
    cases stage <;> simp only [Fits] at fits <;>
      · rw [fits.2] at lives
        cases lives
  | full other element =>
    have same : (s.slots index).object = some other := by
      cases stage <;> simp only [Fits] at fits <;> exact fits.2.1
    cases lives.symm.trans same
    exact counted rfl told.ticket_of_full
  | used other =>
    have same : (s.slots index).object = some other := by
      cases stage <;> simp only [Fits] at fits
      exact fits.2
    cases lives.symm.trans same
    exact counted rfl told.ticket_of_used

/-- Nobody is inside the window of a slot. -/
def Free (capacity : Capacity) (s : State Thread Element) (index : UInt64) : Prop :=
  ∀ thread side ticket, (s.pc thread).window = some (side, ticket) →
    getSlot capacity (UInt64.ofNat ticket) ≠ index

theorem stageAt_of_free (free : Free capacity s index) : StageAt capacity s index .outside := by
  refine Or.inr ⟨rfl, fun thread ticket stage tends place => ?_⟩
  obtain ⟨side, window⟩ := window_of_tends tends
  refine free thread side _ window ?_
  rw [UInt64.ofNat_toNat, place]

theorem odd_iff (turn : UInt64) : turn &&& 1 ≠ 0 ↔ turn.toNat % 2 = 1 := by
  have zero : turn &&& 1 = 0 ↔ turn.toNat % 2 = 0 := by
    rw [← UInt64.toNat_inj, UInt64.toNat_and]
    exact (Nat.and_one_is_mod turn.toNat).congr_left
  rw [Ne, zero]
  omega

/-- The parity of the turn tells whether an element lives in a free slot. -/
theorem object_of_parity (tended : AllTended capacity s trace) (free : Free capacity s index) :
    (s.slots index).turn &&& 1 ≠ 0 ↔ (s.slots index).object ≠ none := by
  obtain ⟨lap, phase, told, fits⟩ := tended index .outside (stageAt_of_free free)
  rw [odd_iff]
  cases phase with
  | raw =>
    obtain ⟨turn, object⟩ := fits
    rw [object]
    exact iff_of_false (by omega) (not_not.mpr rfl)
  | full ticket element =>
    obtain ⟨turn, object, _⟩ := fits
    rw [object]
    exact iff_of_true (by omega) (Option.some_ne_none _)
  | used ticket => exact absurd fits id

/-! ### The destructor -/

/-- `~Slot` destroys the element that lives in a free slot, and nothing else. -/
theorem destructSlot_eq (tended : AllTended capacity s trace) (free : Free capacity s index) :
    destructSlot s index = if (s.slots index).object = none then []
      else [.destroyed index (s.slots index).object] := by
  have parity := object_of_parity tended free
  rw [destructSlot]
  by_cases raw : (s.slots index).object = none
  · rw [if_pos raw, if_neg fun odd => parity.mp odd raw]
  · rw [if_neg raw, if_pos (parity.mpr raw)]

theorem countP_destructSlot (tended : AllTended capacity s trace) (free : Free capacity s index)
    (ticket : UInt64) : (destructSlot s index).countP (Event.destroys ticket) =
      if (s.slots index).object = some ticket then 1 else 0 := by
  rw [destructSlot_eq tended free]
  by_cases raw : (s.slots index).object = none
  · rw [if_pos raw, raw, if_neg (Option.some_ne_none _).symm, List.countP_nil]
  · rw [if_neg raw, List.countP_singleton, Event.destroys]
    simp only [beq_iff_eq]

/-- `~MPMCQueue` destroys an element if it lives in the slot of its ticket. -/
theorem countP_destruct (tended : AllTended capacity s trace)
    (free : ∀ index, Free capacity s index) (ticket : UInt64) :
    (destruct capacity s).countP (Event.destroys ticket) =
      if (s.slots (getSlot capacity ticket)).object = some ticket then 1 else 0 := by
  have bounded : (getSlot capacity ticket).toNat < capacity.value.toNat := by
    rw [toNat_getSlot]
    exact Nat.mod_lt _ capacity.pos
  have elsewhere (index : Nat) (different : index ≠ (getSlot capacity ticket).toNat)
      (member : index ∈ List.range capacity.value.toNat) :
      (List.countP (Event.destroys ticket) ∘ fun index => destructSlot s (UInt64.ofNat index))
        index = 0 := by
    rw [Function.comp_apply, countP_destructSlot tended (free _), if_neg]
    intro lives
    refine different ?_
    rw [(live_of_object tended lives).1, UInt64.toNat_ofNat_of_lt'
      (lt_trans (List.mem_range.mp member) capacity.value.toNat_lt)]
  rw [destruct, List.countP_flatMap, List.sum_map_eq_nsmul_single _ _ elsewhere,
    List.count_range, if_pos bounded, one_nsmul, Function.comp_apply, UInt64.ofNat_toNat,
    countP_destructSlot tended (free _)]

/-- With the destructor every element is destroyed as often as it was constructed. -/
theorem countP_all (tended : AllTended capacity s trace)
    (free : ∀ index, Free capacity s index) (ticket : UInt64) :
    (trace ++ destruct capacity s).countP (Event.destroys ticket) =
      trace.countP (Event.constructs ticket) := by
  rw [List.countP_append, countP_destruct tended free]
  by_cases lives : (s.slots (getSlot capacity ticket)).object = some ticket
  · obtain ⟨_, constructed, destroyed⟩ := live_of_object tended lives
    rw [if_pos lives, constructed, destroyed]
  · rw [if_neg lives, Nat.add_zero]
    obtain ⟨lap, phase, told, fits⟩ := tended _ .outside (stageAt_of_free (free _))
    obtain ⟨constructed, _, destroyed⟩ := told.counts (rfl : getSlot capacity ticket = _)
    rw [countP_story fun _ _ => slot_of_constructs] at constructed
    rw [countP_destroys tended] at destroyed
    rw [constructed, destroyed]
    cases phase with
    | raw => rfl
    | full other element =>
      -- the element of another lap lives there
      obtain ⟨_, object, _⟩ := fits
      obtain ⟨place, lap'⟩ := told.ticket_of_full
      have different : ticket.toNat / capacity.value.toNat ≠ lap := by
        intro same
        refine lives ?_
        rw [object, ticket_ext capacity place (lap'.trans same.symm)]
      rw [Phase.begun]
      refine if_congr ?_ rfl rfl
      omega
    | used other => exact absurd fits id

theorem destroyed_of_destruct (tended : AllTended capacity s trace)
    (free : ∀ index, Free capacity s index) :
    .destroyed index none ∉ (destruct capacity s : List (Event Thread Element)) := by
  intro member
  obtain ⟨index', _, member⟩ := List.mem_flatMap.mp member
  rw [destructSlot_eq tended (free _)] at member
  split at member
  · cases member
  · rename_i present
    injection List.mem_singleton.mp member with _ same
    exact present same.symm

/-! ### The life cycle -/

/-- The slots are used as they may be, in a state that some run has reached. -/
structure LifeCycle (capacity : Capacity) (s : State Thread Element)
    (trace : List (Event Thread Element)) : Prop where
  /-- At most one thread is inside the window of a slot. -/
  alone : ∀ thread other side side' ticket ticket',
    (s.pc thread).window = some (side, ticket) → (s.pc other).window = some (side', ticket') →
    getSlot capacity (UInt64.ofNat ticket) = getSlot capacity (UInt64.ofNat ticket') →
    thread = other
  /-- Outside windows the parity of the turn tells whether an element lives in a slot. -/
  parity : ∀ index, Free capacity s index →
    ((s.slots index).turn &&& 1 ≠ 0 ↔ (s.slots index).object ≠ none)
  /-- What lives in a slot has been constructed once and not been destroyed. -/
  live : ∀ index ticket, (s.slots index).object = some ticket →
    trace.countP (Event.constructs ticket) = 1 ∧ trace.countP (Event.destroys ticket) = 0
  /-- An element is constructed where none lives. -/
  constructs : ∀ thread ticket write after, s.pc thread = .construct ticket write after →
    (s.slots (getSlot capacity ticket)).object = none
  /-- An element is moved from, or handed to a callable, where it lives. -/
  reads : ∀ thread ticket change after, s.pc thread = .read ticket change after →
    (s.slots (getSlot capacity ticket)).object = some ticket
  destroys : ∀ thread ticket after, s.pc thread = .destroy ticket after →
    (s.slots (getSlot capacity ticket)).object = some ticket
  /-- When all operations have returned, `~MPMCQueue` leaves every element that was constructed
  destroyed exactly once. -/
  balanced : (∀ thread, s.pc thread = .idle) →
    (∀ ticket, trace.countP (Event.constructs ticket) ≤ 1 ∧
      (trace ++ destruct capacity s).countP (Event.destroys ticket) =
        trace.countP (Event.constructs ticket)) ∧
    ∀ index, .destroyed index none ∉ trace ++ destruct capacity s

/-- In every run with fewer than `2 ^ 63` tickets, under any schedule of any number of threads. -/
theorem lifeCycle_of_reaches [DecidableEq Thread] {moved : Element → Element}
    {bytes : UInt64 → Element}
    (run : Transitions.Reaches (system capacity moved) (start bytes) s trace)
    (few : FewTickets trace) : LifeCycle capacity s trace := by
  have sound := sound_of_reaches run few
  have tended := tended_of_reaches run few
  have here {thread : Thread} {ticket : UInt64} {stage : Stage}
      (tends : (s.pc thread).tends = some (ticket, stage)) :
      Tended capacity (getSlot capacity ticket) (s.slots (getSlot capacity ticket)) stage
        (story capacity (getSlot capacity ticket) trace) :=
    tended _ _ (Or.inl ⟨thread, ticket, tends, rfl⟩)
  constructor
  · intro thread other side side' ticket ticket' inside inside' place
    exact (sound.orderly.alone ⟨side, ticket, inside, rfl⟩ ⟨side', ticket', inside', rfl⟩ place).1
  · exact fun index free => object_of_parity tended free
  · exact fun index ticket lives => (live_of_object tended lives).2
  · intro thread ticket write after pc
    obtain ⟨turn, _⟩ := turn_of_window sound few
      (by rw [pc]; rfl : (s.pc thread).window = some (.head, ticket.toNat))
    exact (tended_construct thread write (here (by rw [pc]; rfl)) rfl turn).1
  · intro thread ticket change after pc
    obtain ⟨turn, _⟩ := turn_of_window sound few
      (by rw [pc]; rfl : (s.pc thread).window = some (.tail, ticket.toNat))
    exact (tended_read thread change (here (by rw [pc]; rfl)) rfl turn).1
  · intro thread ticket after pc
    obtain ⟨turn, _⟩ := turn_of_window sound few
      (by rw [pc]; rfl : (s.pc thread).window = some (.tail, ticket.toNat))
    exact (tended_destroy (here (by rw [pc]; rfl)) rfl turn).1
  · intro idle
    have free (index : UInt64) : Free capacity s index := by
      intro thread side ticket window
      rw [idle thread] at window
      cases window
    refine ⟨fun ticket => ⟨(countP_le_one tended ticket).1, countP_all tended free ticket⟩,
      fun index member => ?_⟩
    rcases List.mem_append.mp member with before | last
    · obtain ⟨ticket, same, _⟩ := destroyed_of_mem tended before
      cases same
    · exact destroyed_of_destruct tended free last

section Example

/-- A queue with two slots. -/
def twoSlots : Capacity := ⟨2, 1, by decide, rfl⟩

/-- One thread pushes two elements, another consumes the first, and a third element is pushed into
its slot. -/
def refill : List (Action Bool Nat) :=
  [.call false (.bulkPush [7, 8])] ++ List.replicate 7 (.step false) ++
    [.call true (.consume fun element => element + 1)] ++ List.replicate 5 (.step true) ++
    [.call false (.tryEmplace 9)] ++ List.replicate 5 (.step false)

def refilled : List (Event Bool Nat) :=
  [.called false (.bulkPush [7, 8]), .claimedHead false 0 2, .constructed false 0 7,
    .constructed false 1 8, .returned false .unit,
    .called true (.consume fun element => element + 1), .claimedTail true 0, .read true 0 7,
    .destroyed 0 (some 0), .returned true .unit,
    .called false (.tryEmplace 9), .claimedHead false 2 1, .constructed false 2 9,
    .returned false (.bool true)]

theorem lifeCycle_refill : ∃ s,
    Transitions.execute (system twoSlots id) (start fun _ => 0) refill = some (s, refilled) ∧
    LifeCycle twoSlots s refilled := by
  have traced : (Transitions.execute (system twoSlots id) (start fun _ => 0) refill).map
      (fun reached => reached.2) = some refilled := rfl
  obtain ⟨⟨s, _⟩, executed, rfl⟩ := Option.map_eq_some_iff.mp traced
  refine ⟨s, executed, lifeCycle_of_reaches (Transitions.reaches_of_execute executed) ?_⟩
  intro side
  cases side <;> decide

end Example

end MPMCQueue

end Sheep
