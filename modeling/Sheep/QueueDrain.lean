/-
This file runs `bulk_pop` and `try_consume_all` on their own from the top of their
loop. What is published from the tail on is at most one lap long, since a slot
holds one element. A ticket that is out of date is refreshed within two steps,
and then every pass of the loop takes the next element, until the first that has
not been published.
-/

import Mathlib.Data.List.Induction
import Sheep.QueueAttempts
import Sheep.QueueRefusals

namespace Sheep

open Turnstile Transitions

namespace MPMCQueue

variable {Thread Element : Type} [DecidableEq Thread] {capacity : Capacity}
  {moved : Element → Element} {s next : State Thread Element} {thread : Thread}
  {trace events : List (Event Thread Element)}

/-! ### What a call has gathered -/

section Gathered

variable {Item : Type} (pick : Event Thread Element → List Item)

/-- The items a thread has gathered since its last call, after one more event. -/
def afterGather (thread : Thread) (items : List Item) : Event Thread Element → List Item
  | .called other _ => if other = thread then [] else items
  | event => if event.thread = some thread then items ++ pick event else items

/-- What the call a thread is in has gathered so far, or what its last call did. -/
def gathered (thread : Thread) (trace : List (Event Thread Element)) : List Item :=
  trace.foldl (afterGather pick thread) []

theorem gathered_append (thread : Thread) (trace events : List (Event Thread Element)) :
    gathered pick thread (trace ++ events) =
      events.foldl (afterGather pick thread) (gathered pick thread trace) :=
  List.foldl_append

theorem gathered_call (thread other : Thread) (trace : List (Event Thread Element))
    (op : Op Element) : gathered pick other (trace ++ [.called thread op]) =
      if thread = other then [] else gathered pick other trace := gathered_append ..

/-- An event sets back what has been gathered, or adds to it, or does neither. -/
theorem afterGather_cases (thread : Thread) (items : List Item) (event : Event Thread Element) :
    afterGather pick thread items event = [] ∨ afterGather pick thread items event = items ∨
      afterGather pick thread items event = items ++ pick event := by
  cases event <;> simp only [afterGather] <;> split <;> simp

/-- What has been gathered was picked from an event. -/
theorem mem_gathered {item : Item} (member : item ∈ gathered pick thread trace) :
    ∃ event ∈ trace, item ∈ pick event := by
  induction trace using List.reverseRecOn with
  | nil => cases member
  | append_singleton trace event inductionHypothesis =>
    have before (old : item ∈ gathered pick thread trace) :
        ∃ event' ∈ trace ++ [event], item ∈ pick event' := by
      obtain ⟨event', here, picked⟩ := inductionHypothesis old
      exact ⟨event', List.mem_append_left _ here, picked⟩
    rw [gathered_append, List.foldl_cons, List.foldl_nil] at member
    rcases afterGather_cases pick thread (gathered pick thread trace) event with
      same | same | same <;> rw [same] at member
    · cases member
    · exact before member
    · rcases List.mem_append.mp member with old | new
      · exact before old
      · exact ⟨event, List.mem_append_right _ List.mem_cons_self, new⟩

/-- An event of one thread gathers nothing for another. -/
theorem afterGather_other {other : Thread} {event : Event Thread Element}
    (inside : event.Inside thread) (different : other ≠ thread) (items : List Item) :
    afterGather pick other items event = items := by
  cases event with
  | called caller op => exact absurd inside id
  | destroyed index object => rfl
  | _ =>
    refine if_neg fun same => different ?_
    rw [inside] at same
    exact (Option.some.inj same).symm

theorem gathered_advance_other {other : Thread} (different : other ≠ thread)
    (step : advance capacity s thread (s.pc thread) = some (next, events)) :
    gathered pick other (trace ++ events) = gathered pick other trace := by
  rw [gathered_append]
  exact foldl_of_fixed fun event member =>
    afterGather_other pick (inside_of_advance step event member) different _

end Gathered

/-- The element a thread takes, with its ticket. -/
def Event.taken : Event Thread Element → List (UInt64 × Element)
  | .read _ ticket element => [(ticket, element)]
  | _ => []

/-- The elements that the call a thread is in has taken so far, or that its last call took. -/
def takenBy (thread : Thread) (trace : List (Event Thread Element)) : List (UInt64 × Element) :=
  gathered Event.taken thread trace

/-- How many elements the call has taken that stands at a program point, if the point knows. -/
def Pc.taken : Pc Element → Option Nat
  | .loadTail _ _ => some 0
  | .testFull _ _ _ count => some count
  | .casTail _ _ _ count => some count
  | .reloadTail _ _ _ count => some count
  | .read _ _ (.drain _ count) => some count
  | .destroy _ (.drain _ count) => some (count + 1)
  | .release _ (.drain _ count) => some (count + 1)
  | _ => none

/-- The counters of all calls are right. -/
def Tallied (s : State Thread Element) (trace : List (Event Thread Element)) : Prop :=
  ∀ thread count, (s.pc thread).taken = some count → (takenBy thread trace).length = count

omit [DecidableEq Thread] in
theorem taken_pushNext (thread : Thread) (ticket : UInt64) (after : AfterPush Element) :
    ((after.next thread ticket).1).taken = none := by
  cases after with
  | bulk rest => cases rest <;> rfl
  | returnTrue => rfl

/-- Where a step leads, the elements have been counted. -/
theorem taken_advance (step : advance capacity s thread (s.pc thread) = some (next, events))
    {taken : List (UInt64 × Element)}
    (before : ∀ count, (s.pc thread).taken = some count → taken.length = count) :
    ∀ count, (next.pc thread).taken = some count →
      (events.foldl (afterGather Event.taken thread) taken).length = count := by
  intro count now
  cases advances_of_advance step with
  | fetchHead pc | publish pc =>
    rw [State.setPc_pc_self, taken_pushNext] at now
    cases now
  | @release ticket after pc =>
    rw [pc] at before
    rw [State.setPc_pc_self] at now
    cases after with
    | done value => cases now
    | drain change earlier =>
      cases now
      exact before _ rfl
  | @read ticket change after pc =>
    rw [pc] at before
    rw [State.setPc_pc_self] at now
    cases after with
    | done value => cases now
    | drain change earlier =>
      cases now
      simpa [afterGather, Event.thread, Event.taken] using before _ rfl
  | @destroy ticket after pc =>
    rw [pc] at before
    rw [State.setPc_pc_self] at now
    cases after with
    | done value => cases now
    | drain change earlier => exact before _ now
  | @winTail attempt change earlier pc =>
    rw [pc] at before
    rw [State.setPc_pc_self] at now
    cases attempt with
    | one => cases now
    | many => simpa [afterGather, Event.thread, Event.taken] using before _ now
  | loadTail pc | matchFull pc | missFull pc | loseTail pc | retryTail pc =>
    rw [pc] at before
    rw [State.setPc_pc_self] at now
    exact before _ now
  | spinFree pc | spinFull pc =>
    rw [pc] at now
    cases now
  | _ =>
    rw [State.setPc_pc_self] at now
    cases now

/-- In every run the counters of all calls are right. -/
theorem tallied_of_reaches {bytes : UInt64 → Element}
    (run : Reaches (system capacity moved) (start bytes) s trace) : Tallied s trace := by
  refine run.invariant Tallied (fun thread count same => by cases same) ?_
  intro s trace action next events _ tallied step other count now
  rcases system_cases step with ⟨thread, op, _, rfl, rfl⟩ | ⟨thread, step⟩
  · by_cases this : other = thread
    · subst this
      rw [State.setPc_pc_self] at now
      rw [takenBy, gathered_call, if_pos rfl]
      cases op <;> cases now <;> rfl
    · rw [State.setPc_pc_other _ _ _ this] at now
      rw [takenBy, gathered_call, if_neg fun same => this same.symm]
      exact tallied other count now
  · by_cases this : other = thread
    · subst this
      rw [takenBy, gathered_append]
      exact taken_advance step (tallied other) count now
    · rw [pc_advance_other step this] at now
      rw [takenBy, gathered_advance_other _ this step]
      exact tallied other count now

/-! ### Published tickets -/

section Published

omit [DecidableEq Thread]

/-- The producer of a ticket has claimed it and is done with it. -/
def Published (s : State Thread Element) (ticket : Nat) : Prop := ¬ Pending s .head ticket

/-- From the tail on so many tickets have been published, and the next one has not. -/
structure MaximalRun (s : State Thread Element) (more : Nat) : Prop where
  published : ∀ i < more, Published s (s.tail.toNat + i)
  pending : ¬ Published s (s.tail.toNat + more)

/-- The turn of the slot is the one at which the consumer of the ticket may read. -/
def Ripe (capacity : Capacity) (s : State Thread Element) (ticket : UInt64) : Prop :=
  fullTurn capacity ticket = (s.slots (getSlot capacity ticket)).turn

theorem lt_head_of_published {ticket : Nat} (published : Published s ticket) :
    ticket < s.head.toNat :=
  Nat.lt_of_not_le fun unclaimed => published (Or.inl unclaimed)

theorem ripe_iff {ticket : UInt64} (small : ticket.toNat < 2 ^ 63) :
    Ripe capacity s ticket ↔ (s.slots (getSlot capacity ticket)).turn.toNat =
      2 * (ticket.toNat / capacity.value.toNat) + 1 := by
  rw [Ripe, ← UInt64.toNat_inj, toNat_fullTurn capacity small, eq_comm]

/-- Before anybody has claimed the ticket of a consumer, its turn says that it is published. -/
theorem published_iff_ripe (orderly : Orderly (s.board capacity)) {ticket : UInt64}
    (unclaimed : s.tail.toNat ≤ ticket.toNat) (small : ticket.toNat < 2 ^ 63) :
    Published s ticket.toNat ↔ Ripe capacity s ticket := by
  rw [ripe_iff small]
  constructor
  · intro published
    have le : (s.slots (getSlot capacity ticket)).turn.toNat ≤
        (pass capacity .tail ticket.toNat).turn := turn_le_of_unclaimed orderly unclaimed
    rw [turn_pass_tail] at le
    have passed : ¬ (s.slots (getSlot capacity ticket)).turn.toNat ≤
        2 * (ticket.toNat / capacity.value.toNat) := by
      intro early
      refine published (pending_of_turn_le orderly ticket.toNat_lt ?_)
      rw [pass_toNat]
      exact early
    omega
  · intro same pending
    have early : (s.slots (getSlot capacity ticket)).turn.toNat ≤
        (pass capacity .head ticket.toNat).turn := by
      rcases pending with fresh | ⟨holder, holds⟩
      · exact turn_le_of_unclaimed orderly fresh
      · have ahead := orderly.held_ahead holder _ ⟨.head, ticket.toNat, holds, rfl⟩
        rw [pass_toNat] at ahead
        exact ahead
    rw [turn_pass_head] at early
    omega

theorem published_ahead_iff (orderly : Orderly (s.board capacity)) {i : Nat}
    (small : s.tail.toNat + i < 2 ^ 63) :
    Published s (s.tail.toNat + i) ↔ Ripe capacity s (s.tail + UInt64.ofNat i) := by
  have same := toNat_add_ofNat small
  rw [← same]
  exact published_iff_ripe orderly (by omega) (by omega)

/-- A lap later comes the same slot. -/
theorem getSlot_lap {ticket : UInt64} (small : ticket.toNat + capacity.value.toNat < 2 ^ 63) :
    getSlot capacity (ticket + UInt64.ofNat capacity.value.toNat) = getSlot capacity ticket := by
  rw [← UInt64.toNat_inj, toNat_getSlot, toNat_getSlot, toNat_add_ofNat small, Nat.add_mod_right]

/-- A slot holds one element, so no more tickets are published than there are slots. -/
theorem exists_maximalRun (orderly : Orderly (s.board capacity)) (few : s.head.toNat < 2 ^ 63) :
    ∃ more ≤ capacity.value.toNat, MaximalRun s more := by
  classical
  have beyond : ∃ i, ¬ Published s (s.tail.toNat + i) :=
    ⟨s.head.toNat, fun published => by
      have less := lt_head_of_published published
      omega⟩
  have before (i : Nat) (less : i < Nat.find beyond) : Published s (s.tail.toNat + i) :=
    not_not.mp (Nat.find_min beyond less)
  refine ⟨Nat.find beyond, ?_, before, Nat.find_spec beyond⟩
  by_contra lap
  have positive := capacity.pos
  -- the ticket at the tail and the one a lap later would be ripe in one slot
  have first := before 0 (by omega)
  have second := before capacity.value.toNat (by omega)
  have less := lt_head_of_published second
  have far : (s.tail + UInt64.ofNat capacity.value.toNat).toNat =
      s.tail.toNat + capacity.value.toNat := toNat_add_ofNat (lt_trans less few)
  rw [Nat.add_zero, published_iff_ripe orderly le_rfl (by omega)] at first
  rw [published_ahead_iff orderly (by omega)] at second
  have turns : fullTurn capacity s.tail =
      fullTurn capacity (s.tail + UInt64.ofNat capacity.value.toNat) := by
    rw [Ripe] at first second
    rw [first, second, getSlot_lap (by omega)]
  have laps := congrArg UInt64.toNat turns
  rw [toNat_fullTurn capacity (by omega), toNat_fullTurn capacity (by omega), far,
    Nat.add_div_right _ positive] at laps
  omega

/-- Nobody is in the window of a ripe slot whose consumer has not claimed its ticket. -/
theorem not_tends_of_ripe (orderly : Orderly (s.board capacity)) {ticket ticket' : UInt64}
    {stage : Stage} (unclaimed : s.tail.toNat ≤ ticket.toNat) (small : ticket.toNat < 2 ^ 63)
    (ripe : Ripe capacity s ticket) (tends : (s.pc thread).tends = some (ticket', stage)) :
    getSlot capacity ticket' ≠ getSlot capacity ticket := by
  intro slot
  obtain ⟨side, window⟩ := window_of_tends tends
  have inside : (s.board capacity).inside thread (pass capacity side ticket'.toNat) :=
    ⟨side, _, window, rfl⟩
  obtain ⟨side', claimed, holds, same⟩ := orderly.inside_held thread _ inside
  have good := orderly.inside_good thread _ inside
  rw [pass_toNat, slot] at good
  have turns : (s.slots (getSlot capacity ticket)).turn.toNat =
      2 * (ticket'.toNat / capacity.value.toNat) + side.parity := good
  rw [(ripe_iff small).mp ripe] at turns
  -- at an odd turn it would be a consumer, and the ticket would be its own
  cases side with
  | head =>
    rw [Side.parity] at turns
    omega
  | tail =>
    rw [Side.parity] at turns
    obtain rfl : ticket' = ticket := ticket_ext capacity slot (by omega)
    obtain ⟨rfl, rfl⟩ := pass_injective ticket'.toNat_lt holds.1 same
    exact absurd (lt_count_of_holds orderly holds) (Nat.not_lt.mpr unclaimed)

/-- The element of a published ticket was constructed with it. -/
theorem constructed_of_ripe (tended : AllTended capacity s trace)
    (orderly : Orderly (s.board capacity)) {ticket : UInt64}
    (unclaimed : s.tail.toNat ≤ ticket.toNat) (small : ticket.toNat < 2 ^ 63)
    (ripe : Ripe capacity s ticket) :
    ∃ producer, .constructed producer ticket (s.slots (getSlot capacity ticket)).data ∈ trace := by
  have turn := (ripe_iff small).mp ripe
  obtain ⟨lap, phase, told, fits⟩ := tended (getSlot capacity ticket) .outside
    (Or.inr ⟨rfl, fun _ _ _ => not_tends_of_ripe orderly unclaimed small ripe⟩)
  cases phase with
  | raw =>
    obtain ⟨even, _⟩ := fits
    omega
  | used ticket' => exact absurd fits id
  | full ticket' element =>
    obtain ⟨odd, _, rfl⟩ := fits
    obtain ⟨place, lap'⟩ := told.ticket_of_full
    obtain rfl : ticket' = ticket := ticket_ext capacity place (by omega)
    obtain ⟨producer, constructed⟩ := told.constructed_of_full
    exact ⟨producer, mem_of_mem_story constructed⟩

end Published

/-! ### One element -/

/-- The state in which a consumer leaves the window of its ticket. -/
def State.release (capacity : Capacity) (s : State Thread Element) (thread : Thread)
    (ticket : UInt64) (change : Element → Element) (after : AfterPop Element) :
    State Thread Element :=
  let index := getSlot capacity ticket
  (s.setSlot index (((s.slots index).use change).destroy.setTurn
    (releasedTurn capacity ticket))).setPc thread (after.next thread ticket).1

theorem setSlot_setPc_setSlot (s : State Thread Element) (index : UInt64)
    (slot slot' : Slot Element) (thread : Thread) (pc : Pc Element) :
    ((s.setSlot index slot).setPc thread pc).setSlot index slot' =
      (s.setSlot index slot').setPc thread pc := by
  simp only [State.setSlot, State.setPc, Function.update_idem]

/-- A consumer in its window takes the element, destroys it and goes on. -/
theorem execute_read (capacity : Capacity) (moved : Element → Element) {ticket : UInt64}
    {change : Element → Element} {after : AfterPop Element}
    (pc : s.pc thread = .read ticket change after) :
    execute (system capacity moved) s (List.replicate 3 (.step thread)) =
      some (s.release capacity thread ticket change after,
        [.read thread ticket (s.slots (getSlot capacity ticket)).data,
        .destroyed (getSlot capacity ticket) (s.slots (getSlot capacity ticket)).object] ++
          (after.next thread ticket).2) := by
  have used : system capacity moved s (.step thread) = _ := step_eq pc
  have destroyed : system capacity moved _ (.step thread) = _ :=
    step_eq (State.setPc_pc_self (s.setSlot (getSlot capacity ticket)
      ((s.slots (getSlot capacity ticket)).use change)) thread (.destroy ticket after))
  rw [advance, State.setPc_slots, State.setSlot_slots_self, setSlot_setPc_setSlot,
    State.setPc_setPc] at destroyed
  have released : system capacity moved _ (.step thread) = _ :=
    step_eq (State.setPc_pc_self (s.setSlot (getSlot capacity ticket)
      ((s.slots (getSlot capacity ticket)).use change).destroy) thread (.release ticket after))
  rw [advance, State.setPc_slots, State.setSlot_slots_self, setSlot_setPc_setSlot,
    State.setPc_setPc] at released
  have last (s : State Thread Element) : execute (system capacity moved) s [] = some (s, []) := rfl
  have run := execute_cons used (execute_cons destroyed (execute_cons released (last _)))
  rw [List.append_nil] at run
  exact run

/-- A pass of the loop at a published ticket, and what follows it. -/
structure Took (capacity : Capacity) (s next : State Thread Element) (thread : Thread)
    (after : AfterPop Element) : Prop where
  pc : next.pc thread = (after.next thread s.tail).1
  elsewhere : ∀ other ≠ thread, next.pc other = s.pc other
  head : next.head = s.head
  tail : next.tail = s.tail + 1
  turn : (next.slots (getSlot capacity s.tail)).turn = releasedTurn capacity s.tail
  others : ∀ index ≠ getSlot capacity s.tail, next.slots index = s.slots index

theorem execute_take (moved : Element → Element) {attempt : Attempt} {change : Element → Element}
    {count : Nat} (pc : s.pc thread = .testFull attempt change s.tail count)
    (ripe : Ripe capacity s s.tail) :
    ∃ next, execute (system capacity moved) s (List.replicate 5 (.step thread)) =
        some (next, [.claimedTail thread s.tail,
          .read thread s.tail (s.slots (getSlot capacity s.tail)).data,
          .destroyed (getSlot capacity s.tail) (s.slots (getSlot capacity s.tail)).object] ++
            ((attempt.after change count).next thread s.tail).2) ∧
      Took capacity s next thread (attempt.after change count) := by
  have tested : system capacity moved s (.step thread) = _ := (step_eq pc).trans (if_pos ripe)
  have claimed : system capacity moved (s.setPc thread (.casTail attempt change s.tail count))
      (.step thread) = _ := (step_eq (State.setPc_pc_self _ _ _)).trans (if_pos rfl)
  have read := execute_read capacity moved
    (State.setPc_pc_self { s.setPc thread (.casTail attempt change s.tail count) with
      tail := s.tail + 1 } thread (.read s.tail change (attempt.after change count)))
  have run := execute_cons tested (execute_cons claimed read)
  refine ⟨_, run, State.setPc_pc_self _ _ _, fun other different => ?_, rfl, rfl, ?_,
    fun index different => ?_⟩
  · rw [State.release, State.setPc_pc_other _ _ _ different, State.setSlot_pc,
      State.setPc_pc_other _ _ _ different]
    exact State.setPc_pc_other _ _ _ different
  · rw [State.release, State.setPc_slots, State.setSlot_slots_self]
    rfl
  · rw [State.release, State.setPc_slots, State.setSlot_slots_other _ _ _ different]
    rfl

/-- A pass at a ticket that is not published gives up. -/
theorem execute_giveUp (moved : Element → Element) {attempt : Attempt}
    {change : Element → Element} {count : Nat}
    (pc : s.pc thread = .testFull attempt change s.tail count)
    (pending : ¬ Ripe capacity s s.tail) :
    execute (system capacity moved) s (List.replicate 2 (.step thread)) =
      some (s.setPc thread .idle, [.returned thread (attempt.giveUp count)]) := by
  have tested : system capacity moved s (.step thread) = _ := (step_eq pc).trans (if_neg pending)
  have gaveUp : system capacity moved (s.setPc thread (.reloadTail attempt change s.tail count))
      (.step thread) = _ := (step_eq (State.setPc_pc_self _ _ _)).trans (if_pos rfl)
  rw [State.setPc_setPc] at gaveUp
  exact execute_cons tested (execute_cons gaveUp rfl)

/-- A pass at a ticket that is out of date takes the one that is in the counter. -/
theorem execute_refresh (capacity : Capacity) (moved : Element → Element)
    {change : Element → Element} {ticket : UInt64} {count : Nat}
    (pc : s.pc thread = .testFull .many change ticket count) (stale : s.tail ≠ ticket) :
    execute (system capacity moved) s (List.replicate 2 (.step thread)) =
      some (s.setPc thread (.testFull .many change s.tail count), []) := by
  have again (pc' : Pc Element) : s.setPc thread (.testFull .many change s.tail count) =
      (s.setPc thread pc').setPc thread (.testFull .many change s.tail count) :=
    (State.setPc_setPc _ _ _ _).symm
  by_cases turn : fullTurn capacity ticket = (s.slots (getSlot capacity ticket)).turn
  · have tested : system capacity moved s (.step thread) = _ := (step_eq pc).trans (if_pos turn)
    have lost : system capacity moved (s.setPc thread (.casTail .many change ticket count))
        (.step thread) = _ := (step_eq (State.setPc_pc_self _ _ _)).trans (if_neg stale)
    rw [again (.casTail .many change ticket count)]
    exact execute_cons tested (execute_cons lost rfl)
  · have tested : system capacity moved s (.step thread) = _ := (step_eq pc).trans (if_neg turn)
    have retried : system capacity moved (s.setPc thread (.reloadTail .many change ticket count))
        (.step thread) = _ := (step_eq (State.setPc_pc_self _ _ _)).trans (if_neg stale)
    rw [again (.reloadTail .many change ticket count)]
    exact execute_cons tested (execute_cons retried rfl)

/-! ### Draining -/

/-- The slot of the ticket that comes so many after the one at the tail. -/
def slotAhead (capacity : Capacity) (s : State Thread Element) (i : Nat) : Slot Element :=
  s.slots (getSlot capacity (s.tail + UInt64.ofNat i))

/-- What the slots from the tail on hold, with the tickets of their consumers. -/
def elementsAhead (capacity : Capacity) (s : State Thread Element) (more : Nat) :
    List (UInt64 × Element) :=
  (List.range more).map fun i => (s.tail + UInt64.ofNat i, (slotAhead capacity s i).data)

section Ahead

omit [DecidableEq Thread]

variable {after : AfterPop Element} {more : Nat}

theorem getSlot_ahead_ne {i : Nat} (positive : 0 < i) (lap : i < capacity.value.toNat)
    (small : s.tail.toNat + i < 2 ^ 63) :
    getSlot capacity (s.tail + UInt64.ofNat i) ≠ getSlot capacity s.tail := by
  intro same
  rw [← UInt64.toNat_inj, toNat_getSlot, toNat_getSlot, toNat_add_ofNat small] at same
  have multiple := Nat.sub_mod_eq_zero_of_mod_eq same
  rw [Nat.add_sub_cancel_left, Nat.mod_eq_of_lt lap] at multiple
  omega

theorem ahead_zero (ticket : UInt64) : ticket + UInt64.ofNat 0 = ticket := UInt64.add_zero ticket

theorem Took.ticket (took : Took capacity s next thread after) (i : Nat) :
    next.tail + UInt64.ofNat i = s.tail + UInt64.ofNat (i + 1) := by
  rw [took.tail, UInt64.ofNat_add, UInt64.add_assoc, UInt64.add_comm 1]
  rfl

/-- The slots further on are as they were. -/
theorem Took.slotAhead (took : Took capacity s next thread after) {i : Nat}
    (lap : i + 1 < capacity.value.toNat) (small : s.tail.toNat + (i + 1) < 2 ^ 63) :
    slotAhead capacity next i = slotAhead capacity s (i + 1) := by
  rw [MPMCQueue.slotAhead, took.ticket, took.others _ (getSlot_ahead_ne (by omega) lap small)]
  rfl

theorem Took.elementsAhead (took : Took capacity s next thread after)
    (lap : more + 1 ≤ capacity.value.toNat) (small : s.tail.toNat + (more + 1) < 2 ^ 63) :
    elementsAhead capacity s (more + 1) =
      (s.tail, (s.slots (getSlot capacity s.tail)).data) :: elementsAhead capacity next more := by
  rw [MPMCQueue.elementsAhead, List.range_succ_eq_map, List.map_cons, List.map_map]
  congr 1
  · rw [MPMCQueue.slotAhead, ahead_zero]
  · refine List.map_congr_left fun i member => ?_
    have less := List.mem_range.mp member
    rw [took.slotAhead (by omega) (by omega), took.ticket]
    rfl

/-- So are their turns. -/
theorem Took.ripe_iff (took : Took capacity s next thread after) {i : Nat}
    (lap : i + 1 < capacity.value.toNat) (small : s.tail.toNat + (i + 1) < 2 ^ 63) :
    Ripe capacity next (next.tail + UInt64.ofNat i) ↔
      Ripe capacity s (s.tail + UInt64.ofNat (i + 1)) := by
  rw [Ripe, Ripe, took.ticket, took.others _ (getSlot_ahead_ne (by omega) lap small)]

/-- A slot that has just been released is not ripe for the next lap. -/
theorem Took.not_ripe (took : Took capacity s next thread after) {i : Nat}
    (lap : i + 1 ≤ capacity.value.toNat) (small : s.tail.toNat + (i + 1) < 2 ^ 63)
    (pending : ¬ Ripe capacity s (s.tail + UInt64.ofNat (i + 1))) :
    ¬ Ripe capacity next (next.tail + UInt64.ofNat i) := by
  rcases lap.lt_or_eq with less | whole
  · rwa [took.ripe_iff less small]
  · intro ripe
    rw [whole] at small
    have far := toNat_add_ofNat small
    rw [Ripe, took.ticket, whole, getSlot_lap small, took.turn] at ripe
    have turns := congrArg UInt64.toNat ripe
    have positive := capacity.pos
    rw [toNat_fullTurn capacity (by omega), toNat_releasedTurn capacity (by omega)] at turns
    omega

theorem tickets_elementsAhead (small : s.tail.toNat + more < 2 ^ 63) :
    (elementsAhead capacity s more).map (·.1.toNat) = List.range' s.tail.toNat more := by
  rw [MPMCQueue.elementsAhead, List.map_map, List.range'_eq_map_range]
  refine List.map_congr_left fun i member => ?_
  have less := List.mem_range.mp member
  exact toNat_add_ofNat (by omega)

/-- What the slots hold was constructed with these tickets. -/
theorem constructed_of_elementsAhead (tended : AllTended capacity s trace)
    (orderly : Orderly (s.board capacity)) (small : s.tail.toNat + more < 2 ^ 63)
    (ripe : ∀ i < more, Ripe capacity s (s.tail + UInt64.ofNat i)) :
    ∀ entry ∈ elementsAhead capacity s more,
      ∃ producer, .constructed producer entry.1 entry.2 ∈ trace := by
  intro entry member
  obtain ⟨i, below, rfl⟩ := List.mem_map.mp member
  have less := List.mem_range.mp below
  have same : (s.tail + UInt64.ofNat i).toNat = s.tail.toNat + i := toNat_add_ofNat (by omega)
  refine constructed_of_ripe tended orderly ?_ ?_ (ripe i less)
  · rw [same]
    exact Nat.le_add_right _ _
  · rw [same]
    omega

end Ahead

/-- On its own the loop takes what is ripe from the tail on, and then gives up. -/
theorem execute_drain (capacity : Capacity) (moved : Element → Element)
    {change : Element → Element} {count more : Nat}
    (pc : s.pc thread = .testFull .many change s.tail count)
    (lap : more ≤ capacity.value.toNat) (small : s.tail.toNat + more < 2 ^ 63)
    (ripe : ∀ i < more, Ripe capacity s (s.tail + UInt64.ofNat i))
    (pending : ¬ Ripe capacity s (s.tail + UInt64.ofNat more)) :
    ∃ next events, execute (system capacity moved) s
        (List.replicate (5 * more + 2) (.step thread)) = some (next, events) ∧
      next.pc thread = .idle ∧
      (∀ taken, events.foldl (afterGather Event.taken thread) taken =
        taken ++ elementsAhead capacity s more) ∧
      returned events = some (.count (count + more)) := by
  induction more generalizing s count with
  | zero =>
    rw [ahead_zero] at pending
    exact ⟨_, _, execute_giveUp moved pc pending, State.setPc_pc_self _ _ _,
      fun taken => by simp [afterGather, Event.thread, Event.taken, elementsAhead], rfl⟩
  | succ more inductionHypothesis =>
    have first := ripe 0 (Nat.succ_pos more)
    rw [ahead_zero] at first
    obtain ⟨middle, execution, took⟩ := execute_take moved pc first
    have tail : middle.tail.toNat = s.tail.toNat + 1 := by
      rw [took.tail, toNat_add_one (by omega)]
    obtain ⟨next, events, rest, idle, takes, returns⟩ := inductionHypothesis
      (by rw [took.pc, took.tail]; rfl) (by omega) (by omega)
      (fun i less => (took.ripe_iff (by omega) (by omega)).mpr (ripe (i + 1) (by omega)))
      (took.not_ripe lap small pending)
    have steps : 5 * (more + 1) + 2 = 5 + (5 * more + 2) := by omega
    have whole := execute_append execution rest
    rw [← List.replicate_add, ← steps] at whole
    refine ⟨next, _, whole, idle, fun taken => ?_, ?_⟩
    · rw [List.foldl_append, takes, took.elementsAhead lap small, List.append_cons]
      congr 1
      simp [afterGather, Event.thread, Event.taken, Attempt.after, AfterPop.next]
    · rw [Nat.add_comm more 1, ← Nat.add_assoc]
      exact returns

/-- If only the thread takes steps, its call returns. From here on it hands over the elements of so
many tickets from the tail on, each as it was constructed with its ticket, and it returns how many
it has handed over in all. -/
def DrainsAlone (capacity : Capacity) (moved : Element → Element) (s : State Thread Element)
    (thread : Thread) (trace : List (Event Thread Element)) (more : Nat) : Prop :=
  ∃ steps next events handed,
    execute (system capacity moved) s (List.replicate steps (.step thread)) =
      some (next, events) ∧
    next.pc thread = .idle ∧
    takenBy thread (trace ++ events) = takenBy thread trace ++ handed ∧
    handed.map (·.1.toNat) = List.range' s.tail.toNat more ∧
    (∀ entry ∈ handed, ∃ producer, .constructed producer entry.1 entry.2 ∈ trace) ∧
    returned events = some (.count (takenBy thread (trace ++ events)).length)

variable {bytes : UInt64 → Element} {change : Element → Element} {ticket : UInt64} {count : Nat}

/-- From the top of the loop it takes what is published from the tail on, whatever ticket it has. -/
theorem execute_top (capacity : Capacity) (moved : Element → Element) {more : Nat}
    (pc : s.pc thread = .testFull .many change ticket count)
    (lap : more ≤ capacity.value.toNat) (small : s.tail.toNat + more < 2 ^ 63)
    (ripe : ∀ i < more, Ripe capacity s (s.tail + UInt64.ofNat i))
    (pending : ¬ Ripe capacity s (s.tail + UInt64.ofNat more)) :
    ∃ steps next events,
      execute (system capacity moved) s (List.replicate steps (.step thread)) =
        some (next, events) ∧
      next.pc thread = .idle ∧
      (∀ taken, events.foldl (afterGather Event.taken thread) taken =
        taken ++ elementsAhead capacity s more) ∧
      returned events = some (.count (count + more)) := by
  by_cases fresh : s.tail = ticket
  · subst fresh
    exact ⟨_, execute_drain capacity moved pc lap small ripe pending⟩
  · have refreshed := execute_refresh capacity moved pc fresh
    obtain ⟨next, events, rest, drained⟩ := execute_drain capacity moved
      (State.setPc_pc_self s thread (.testFull .many change s.tail count)) lap small ripe pending
    have whole := execute_append refreshed rest
    rw [← List.replicate_add] at whole
    exact ⟨_, next, events, whole, drained⟩

/-- In every run, a thread at the top of the loop of `bulk_pop` or `try_consume_all` that is left
alone takes exactly what is published from the tail on. -/
theorem drainsAlone_of_reaches
    (run : Reaches (system capacity moved) (start bytes) s trace) (few : FewTickets trace)
    (top : s.pc thread = .testFull .many change ticket count) :
    ∃ more ≤ capacity.value.toNat, MaximalRun s more ∧
      DrainsAlone capacity moved s thread trace more := by
  have orderly := (sound_of_reaches run few).orderly
  have bounded := count_lt_of_few run few
  obtain ⟨more, lap, maximal⟩ := exists_maximalRun orderly (bounded .head)
  have small : s.tail.toNat + more < 2 ^ 63 := by
    cases more with
    | zero => exact bounded .tail
    | succ more =>
      have last := lt_head_of_published (maximal.published more (Nat.lt_succ_self more))
      have head : s.head.toNat < 2 ^ 63 := bounded .head
      omega
  have ripe (i : Nat) (less : i < more) : Ripe capacity s (s.tail + UInt64.ofNat i) :=
    (published_ahead_iff orderly (by omega)).mp (maximal.published i less)
  have pending : ¬ Ripe capacity s (s.tail + UInt64.ofNat more) := fun last =>
    maximal.pending ((published_ahead_iff orderly small).mpr last)
  obtain ⟨steps, next, events, executed, idle, takes, returns⟩ :=
    execute_top capacity moved top lap small ripe pending
  have tallied : (takenBy thread trace).length = count :=
    tallied_of_reaches run thread count (by rw [top]; rfl)
  have whole : takenBy thread (trace ++ events) =
      takenBy thread trace ++ elementsAhead capacity s more := by
    rw [takenBy, gathered_append, takes]
    rfl
  refine ⟨more, lap, maximal, steps, next, events, elementsAhead capacity s more, executed, idle,
    whole, tickets_elementsAhead small,
    constructed_of_elementsAhead (tended_of_reaches run few) orderly small ripe, ?_⟩
  rw [whole, List.length_append, tallied, elementsAhead, List.length_map, List.length_range]
  exact returns

section Example

/-- A thread has loaded the counter, and another one pops that element and pushes the next. -/
def behind : List (Action Bool Nat) :=
  [.call false (.emplace 7), .step false, .step false, .step false, .step false,
    .call true (.tryConsumeAll fun element => element + 1), .step true, .call false .tryPop] ++
    List.replicate 6 (.step false) ++
    [.call false (.emplace 8), .step false, .step false, .step false, .step false]

def fellBehind : List (Event Bool Nat) :=
  [.called false (.emplace 7), .claimedHead false 0 1, .constructed false 0 7,
    .returned false .unit, .called true (.tryConsumeAll fun element => element + 1),
    .called false .tryPop, .claimedTail false 0, .read false 0 7, .destroyed 0 (some 0),
    .returned false (.bool true), .called false (.emplace 8), .claimedHead false 1 1,
    .constructed false 1 8, .returned false .unit]

/-- The thread whose ticket is out of date takes the new element. -/
theorem drainsAlone_behind : ∃ s,
    execute (system oneSlot id) (start fun _ => 0) behind = some (s, fellBehind) ∧
    ∃ more ≤ oneSlot.value.toNat, MaximalRun s more ∧
      DrainsAlone oneSlot id s true fellBehind more := by
  have traced : (execute (system oneSlot id) (start fun _ => 0) behind).map
      (fun reached => (reached.1.pc true, reached.2)) =
        some (.testFull .many (fun element => element + 1) 0 0, fellBehind) := rfl
  obtain ⟨⟨s, trace⟩, executed, same⟩ := Option.map_eq_some_iff.mp traced
  obtain ⟨pc, rfl⟩ := Prod.mk.inj same
  exact ⟨s, executed, drainsAlone_of_reaches (reaches_of_execute executed)
    (fun side => by cases side <;> decide) pc⟩

end Example

end MPMCQueue

end Sheep
