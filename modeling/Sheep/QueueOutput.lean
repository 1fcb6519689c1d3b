/-
This file says what `bulk_pop` leaves in the sequence its output iterator leads
into. Every element is assigned through the iterator, which is not moved on in
between. An inserter moves itself when it is assigned through; a pointer or an
iterator of a vector stays, and the next element takes the place of the one before.
-/

import Sheep.QueueDrain
import Sheep.QueueLifeCycle

namespace Sheep

open Turnstile Transitions

namespace MPMCQueue

variable {Thread Element : Type}

/-! ### Output iterators -/

/-- How an iterator writes: where it stands, or by putting the element in there. -/
inductive Writing
  | pointer
  | inserter
deriving DecidableEq, Repr

/-- An output iterator in the sequence it leads into. A cell that was there before holds `none`; an
element has its ticket as a name. -/
structure Output (Element : Type) where
  writing : Writing
  position : Nat
  cells : List (Option (UInt64 × Element))

namespace Output

/-- `*out = slot.move()`. An inserter stands behind the element then. -/
def assign (out : Output Element) (entry : UInt64 × Element) : Output Element :=
  match out.writing with
  | .pointer => { out with cells := out.cells.set out.position (some entry) }
  | .inserter =>
      { out with
        cells := out.cells.take out.position ++ some entry :: out.cells.drop out.position
        position := out.position + 1 }

/-- The sequence is as it was before the call, and large enough for so many elements. -/
structure Room (out : Output Element) (n : Nat) : Prop where
  untouched : ∀ cell ∈ out.cells, cell = none
  inside : out.position ≤ out.cells.length
  large : out.writing = .pointer → out.position + n ≤ out.cells.length

/-- A pointer writes every element at the place it stands. -/
theorem foldl_pointer (out : Output Element) (pointer : out.writing = .pointer)
    (entries : List (UInt64 × Element)) (last : UInt64 × Element) :
    (entries ++ [last]).foldl assign out =
      { out with cells := out.cells.set out.position (some last) } := by
  induction entries generalizing out with
  | nil => rw [List.nil_append, List.foldl_cons, List.foldl_nil, assign, pointer]
  | cons entry rest inductionHypothesis =>
    rw [List.cons_append, List.foldl_cons]
    have stays : out.assign entry =
        { out with cells := out.cells.set out.position (some entry) } := by
      rw [assign, pointer]
    rw [stays]
    refine (inductionHypothesis _ (by exact pointer)).trans ?_
    rw [List.set_set]

/-- An inserter puts the elements one behind the other. -/
theorem foldl_inserter (out : Output Element) (inserter : out.writing = .inserter)
    (inside : out.position ≤ out.cells.length) (entries : List (UInt64 × Element)) :
    (entries.foldl assign out).cells =
      out.cells.take out.position ++ entries.map some ++ out.cells.drop out.position := by
  induction entries generalizing out with
  | nil => simp
  | cons entry rest inductionHypothesis =>
    have moves : out.assign entry = { out with
        cells := out.cells.take out.position ++ some entry :: out.cells.drop out.position
        position := out.position + 1 } := by
      rw [assign, inserter]
    have behind : (out.cells.take out.position ++ [some entry]).length = out.position + 1 := by
      rw [List.length_append, List.length_take_of_le inside, List.length_singleton]
    rw [List.foldl_cons, moves, List.append_cons]
    refine (inductionHypothesis _ (by exact inserter) ?_).trans ?_
    · show out.position + 1 ≤ _
      rw [List.length_append, behind]
      exact Nat.le_add_right _ _
    · show List.take (out.position + 1) _ ++ _ ++ List.drop (out.position + 1) _ = _
      rw [List.take_left' behind, List.drop_left' behind, List.map_cons, ← List.append_cons]

/-- So it keeps only the last of them. -/
theorem drop_foldl_pointer (out : Output Element) (pointer : out.writing = .pointer)
    (room : out.position < out.cells.length) (entries : List (UInt64 × Element))
    (last : UInt64 × Element) :
    ((entries ++ [last]).foldl assign out).cells.drop out.position =
      some last :: out.cells.drop (out.position + 1) := by
  rw [foldl_pointer out pointer]
  show List.drop _ (out.cells.set out.position (some last)) = _
  rw [List.set_eq_take_append_cons_drop, if_pos room]
  exact List.drop_left' (List.length_take_of_le room.le)

/-- The elements that have been assigned stand in order behind each other from the first position
on just when the iterator is an inserter, or there is at most one. -/
theorem stored_iff (out : Output Element) (entries : List (UInt64 × Element))
    (room : out.Room entries.length) :
    ((entries.foldl assign out).cells.drop out.position).take entries.length =
        entries.map some ↔
      out.writing = .inserter ∨ entries.length ≤ 1 := by
  cases writing : out.writing with
  | inserter =>
    refine iff_of_true ?_ (Or.inl rfl)
    rw [foldl_inserter out writing room.inside, List.append_assoc,
      List.drop_left' (List.length_take_of_le room.inside),
      List.take_left' (List.length_map some)]
  | pointer =>
    have large := room.large writing
    rcases List.eq_nil_or_concat entries with rfl | ⟨before, last, rfl⟩
    · exact iff_of_true rfl (Or.inr (Nat.zero_le 1))
    · rw [List.concat_eq_append, List.length_append, List.length_singleton] at large ⊢
      rw [drop_foldl_pointer out writing (by omega), List.take_succ_cons, List.map_append]
      cases before with
      | nil => exact iff_of_true rfl (Or.inr le_rfl)
      | cons first more =>
        refine iff_of_false (fun same => ?_) (by simp)
        -- the last element would have to stand in a cell that has not been written
        obtain ⟨_, rest⟩ := List.cons.inj same
        have member :
            some last ∈ (out.cells.drop (out.position + 1)).take (first :: more).length := by
          rw [rest]
          exact List.mem_append_right _ List.mem_cons_self
        cases room.untouched _ (List.mem_of_mem_drop (List.mem_of_mem_take member))

end Output

/-! ### Tickets of a call -/

section Tickets

variable [DecidableEq Thread] {capacity : Capacity} {moved : Element → Element}
  {s next : State Thread Element} {thread : Thread} {trace events : List (Event Thread Element)}

/-- The ticket a consumer wins. -/
def Event.won : Event Thread Element → List UInt64
  | .claimedTail _ ticket => [ticket]
  | _ => []

/-- The tickets of the tail that the call a thread is in has won so far, or that its last call
won. -/
def wonBy (thread : Thread) (trace : List (Event Thread Element)) : List UInt64 :=
  gathered Event.won thread trace

omit [DecidableEq Thread] in
theorem claimed_of_won (event : Event Thread Element) :
    event.won.map UInt64.toNat = event.claimed .tail := by
  cases event <;> rfl

/-- A call wins its tickets in the order in which all are claimed. -/
theorem wonBy_sublist (thread : Thread) (trace : List (Event Thread Element)) :
    ((wonBy thread trace).map UInt64.toNat).Sublist (claims .tail trace) := by
  induction trace using List.reverseRecOn with
  | nil => exact List.Sublist.slnil
  | append_singleton trace event inductionHypothesis =>
    have claimed : claims .tail [event] = event.won.map UInt64.toNat := by
      rw [claimed_of_won, claims_cons]
      exact List.append_nil _
    rw [wonBy, gathered_append, List.foldl_cons, List.foldl_nil, claims_append]
    rcases afterGather_cases Event.won thread (gathered Event.won thread trace) event with
      same | same | same
    · rw [same]
      exact List.nil_sublist _
    · rw [same]
      exact inductionHypothesis.trans (List.sublist_append_left _ _)
    · rw [same, claimed, List.map_append]
      exact inductionHypothesis.append_right _

/-- The ticket that a consumer has won and not taken the element of. -/
def Pc.inHand : Pc Element → List UInt64
  | .awaitFull ticket _ => [ticket]
  | .read ticket _ _ => [ticket]
  | _ => []

/-- Of all its tickets, every call has taken the elements, but for the one in its hand. -/
def InHand (s : State Thread Element) (trace : List (Event Thread Element)) : Prop :=
  ∀ thread, wonBy thread trace = (takenBy thread trace).map (·.1) ++ (s.pc thread).inHand

theorem inHand_advance (step : advance capacity s thread (s.pc thread) = some (next, events))
    {won : List UInt64} {taken : List (UInt64 × Element)}
    (before : won = taken.map (·.1) ++ (s.pc thread).inHand) :
    events.foldl (afterGather Event.won thread) won =
      (events.foldl (afterGather Event.taken thread) taken).map (·.1) ++
        (next.pc thread).inHand := by
  cases advances_of_advance step with
  | @fetchHead writes pc =>
    rw [pc] at before
    rw [State.setPc_pc_self]
    cases writes <;>
      simpa [afterGather, Event.thread, Event.taken, Event.won, AfterPush.next,
        Pc.inHand] using before
  | @publish ticket after pc =>
    rw [pc] at before
    rw [State.setPc_pc_self]
    rcases after with (_ | _) | _ <;>
      simpa [afterGather, Event.thread, Event.taken, Event.won, AfterPush.next,
        Pc.inHand] using before
  | @release ticket after pc =>
    rw [pc] at before
    rw [State.setPc_pc_self]
    cases after <;>
      simpa [afterGather, Event.thread, Event.taken, Event.won, AfterPop.next,
        Pc.inHand] using before
  | @read ticket change after pc =>
    rw [pc] at before
    rw [State.setPc_pc_self]
    simpa [afterGather, Event.thread, Event.taken, Event.won, Pc.inHand] using before
  | spinFree pc | spinFull pc => exact before
  | _ pc =>
    rw [pc] at before
    rw [State.setPc_pc_self]
    simpa [afterGather, Event.thread, Event.taken, Event.won, Pc.inHand] using before

/-- In every run calls have taken the elements of the tickets they have won. -/
theorem inHand_of_reaches {bytes : UInt64 → Element}
    (run : Reaches (system capacity moved) (start bytes) s trace) : InHand s trace := by
  refine run.invariant InHand (fun _ => rfl) ?_
  intro s trace action next events _ inHand step other
  have before := inHand other
  rcases system_cases step with ⟨thread, op, _, rfl, rfl⟩ | ⟨thread, step⟩
  · rw [wonBy, takenBy, gathered_call, gathered_call]
    by_cases this : other = thread
    · subst this
      rw [if_pos rfl, if_pos rfl, State.setPc_pc_self]
      cases op <;> rfl
    · have silent : thread ≠ other := fun same => this same.symm
      rw [if_neg silent, if_neg silent, State.setPc_pc_other _ _ _ this]
      exact before
  · by_cases this : other = thread
    · subst this
      rw [wonBy, takenBy, gathered_append, gathered_append]
      exact inHand_advance step before
    · rw [wonBy, takenBy, gathered_advance_other _ this step, gathered_advance_other _ this step,
        pc_advance_other step this]
      exact before

end Tickets

/-! ### Filling a range -/

section Fills

variable [DecidableEq Thread] {capacity : Capacity} {moved : Element → Element}
  {bytes : UInt64 → Element} {s next : State Thread Element} {thread : Thread}
  {trace events : List (Event Thread Element)} {n : Nat}

/-- The iterator, and the sequence it leads into, after what `bulk_pop(out)` has done so far: every
element is assigned as it is taken, and `out` itself is not moved on. -/
def Output.after (out : Output Element) (thread : Thread) (trace : List (Event Thread Element)) :
    Output Element :=
  (takenBy thread trace).foldl assign out

/-- The call has taken so many elements, and they stand, in the order of their tickets and as they
were constructed, in so many positions from the iterator on. -/
structure FillsRange (out : Output Element) (thread : Thread)
    (trace : List (Event Thread Element)) (n : Nat) : Prop where
  removed : (takenBy thread trace).length = n
  ordered : ((takenBy thread trace).map (·.1.toNat)).Pairwise (· < ·)
  delivered : ∀ entry ∈ takenBy thread trace,
    ∃ producer, .constructed producer entry.1 entry.2 ∈ trace
  stored : ((out.after thread trace).cells.drop out.position).take n =
    (takenBy thread trace).map some

/-- A call that drains the queue returns at its last look at the counter, with no ticket in its
hand. -/
theorem reload_of_returned
    (run : Reaches (system capacity moved) (start bytes) s trace) {op : Op Element}
    (call : callOf thread trace = some op) (manner : op.manner = .attempt .many)
    (step : system capacity moved s (.step thread) = some (next, events))
    (told : .returned thread (.count n) ∈ events) :
    ∃ change, s.pc thread = .reloadTail .many change s.tail n := by
  have inCall := manner_of_callOf run call
  have returns := returnsAt_of_advance step told
  rw [manner] at inCall
  generalize at_pc : s.pc thread = pc at inCall returns
  generalize value : Returned.count n = told at returns
  cases returns with
  | @empty attempt change count =>
    cases inCall
    cases value
    exact ⟨change, rfl⟩
  | released => exact absurd inCall (manner_done_ne_many _)
  | nothing | published | tried | full => cases inCall

/-- What a consumer takes in a call has tickets in order. -/
theorem takenBy_ordered
    (run : Reaches (system capacity moved) (start bytes) s trace) (few : FewTickets trace) :
    ((takenBy thread trace).map (·.1.toNat)).Pairwise (· < ·) := by
  have ordered : ((wonBy thread trace).map UInt64.toNat).Pairwise (· < ·) := by
    refine List.Pairwise.sublist (wonBy_sublist thread trace) ?_
    rw [(sound_of_reaches run few).claimed .tail]
    exact List.pairwise_lt_range
  rw [inHand_of_reaches run thread, List.map_append, List.map_map] at ordered
  exact (List.pairwise_append.mp ordered).1

theorem takenBy_delivered
    (run : Reaches (system capacity moved) (start bytes) s trace) (few : FewTickets trace) :
    ∀ entry ∈ takenBy thread trace,
      ∃ producer, .constructed producer entry.1 entry.2 ∈ trace := by
  intro entry member
  obtain ⟨event, here, picked⟩ := mem_gathered Event.taken member
  cases event with
  | read consumer ticket element =>
    cases List.mem_singleton.mp picked
    obtain ⟨before, after, split⟩ := List.append_of_mem here
    obtain ⟨_, producer, _, constructed⟩ := delivered_of_reaches run few split
    rw [split]
    exact ⟨producer, List.mem_append_left _ constructed⟩
  | _ => cases picked

/-- A call that has taken an element already is about to take another one: the ticket that it has
found published is still at the tail. -/
def TakesAgain (s : State Thread Element) (thread : Thread) : Prop :=
  ∃ change count, s.pc thread = .casTail .many change s.tail count ∧ count ≠ 0

/-- No step of the thread in a schedule finds that. -/
def TakesOnce (capacity : Capacity) (moved : Element → Element) (thread : Thread)
    (entered : State Thread Element) (schedule : List (Action Thread Element)) : Prop :=
  ∀ front back, schedule = front ++ .step thread :: back → ∀ middle told,
    execute (system capacity moved) entered front = some (middle, told) → ¬TakesAgain middle thread

theorem takesOnce_cons {entered : State Thread Element} {action : Action Thread Element}
    {rest : List (Action Thread Element)}
    (step : system capacity moved entered action = some (next, events)) :
    TakesOnce capacity moved thread entered (action :: rest) ↔
      (action = .step thread → ¬TakesAgain entered thread) ∧
        TakesOnce capacity moved thread next rest := by
  constructor
  · refine fun once => ⟨?_, fun front back split middle told executed => ?_⟩
    · rintro rfl
      exact once [] rest rfl entered [] rfl
    · refine once (action :: front) back ?_ middle _ (execute_cons step executed)
      rw [split]
      rfl
  · rintro ⟨first, later⟩ front back split middle told executed
    cases front with
    | nil =>
      cases executed
      exact first (List.cons.inj split).1
    | cons action' front =>
      obtain ⟨rfl, remains⟩ := List.cons.inj split
      obtain ⟨_, _, onward, step', executed, _⟩ := cons_of_execute executed
      cases step.symm.trans step'
      exact later front back remains middle onward executed

omit [DecidableEq Thread] in
theorem won_pushNext {event : Event Thread Element} {ticket : UInt64} {after : AfterPush Element}
    (member : event ∈ (after.next thread ticket).2) : event.won = [] := by
  rcases after with (_ | _) | _ <;> simp [AfterPush.next] at member <;> rw [member] <;> rfl

omit [DecidableEq Thread] in
theorem won_popNext {event : Event Thread Element} {ticket : UInt64} {after : AfterPop Element}
    (member : event ∈ (after.next thread ticket).2) : event.won = [] := by
  cases after <;> simp [AfterPop.next] at member
  rw [member]
  rfl

theorem wonBy_of_silent (silent : ∀ event ∈ events, event.won = [])
    (inside : ∀ op, .called thread op ∉ events) :
    wonBy thread (trace ++ events) = wonBy thread trace := by
  rw [wonBy, gathered_append]
  refine foldl_of_fixed fun event member => ?_
  cases event with
  | called other op =>
    refine if_neg fun same => inside op ?_
    rw [← same]
    exact member
  | _ => simp [afterGather, silent _ member]

/-- A call that drains the queue has won a second ticket if it had before, or takes again. -/
theorem two_won_step (run : Reaches (system capacity moved) (start bytes) s trace)
    (manner : (s.pc thread).manner = some (.attempt .many))
    (step : advance capacity s thread (s.pc thread) = some (next, events)) :
    2 ≤ (wonBy thread (trace ++ events)).length ↔
      2 ≤ (wonBy thread trace).length ∨ TakesAgain s thread := by
  have elsewhere (silent : ∀ event ∈ events, event.won = []) (apart : ¬TakesAgain s thread) :
      2 ≤ (wonBy thread (trace ++ events)).length ↔
        2 ≤ (wonBy thread trace).length ∨ TakesAgain s thread := by
    rw [wonBy_of_silent silent (not_called_of_advance step thread), or_iff_left apart]
  cases advances_of_advance step with
  | @winTail attempt change count pc =>
    rw [pc] at manner
    cases manner
    have won : (wonBy thread trace).length = count := by
      rw [inHand_of_reaches run thread, pc, List.length_append, List.length_map,
        tallied_of_reaches run thread count (by rw [pc]; rfl)]
      rfl
    have again : TakesAgain s thread ↔ count ≠ 0 := by
      refine ⟨fun ⟨_, _, pc', more⟩ => ?_, fun more => ⟨change, count, pc, more⟩⟩
      cases pc.symm.trans pc'
      exact more
    have grown : (wonBy thread (trace ++ [.claimedTail thread s.tail])).length = count + 1 := by
      rw [wonBy, gathered_append, ← won]
      simp [afterGather, Event.thread, Event.won, wonBy]
    rw [grown, won, again]
    omega
  | fetchTail pc =>
    rw [pc] at manner
    cases manner
  | @loseTail attempt change ticket count pc lost =>
    refine elsewhere (fun event member => by cases member) fun ⟨_, _, pc', _⟩ => lost ?_
    cases pc.symm.trans pc'
    rfl
  | @publish ticket after pc =>
    refine elsewhere (fun event => won_pushNext) fun ⟨_, _, pc', _⟩ => ?_
    cases pc.symm.trans pc'
  | @release ticket after pc =>
    refine elsewhere (fun event => won_popNext) fun ⟨_, _, pc', _⟩ => ?_
    cases pc.symm.trans pc'
  | @fetchHead writes pc =>
    rw [pc] at manner
    cases manner
  | _ pc =>
    refine elsewhere (fun event member => by simp at member <;> rw [member] <;> rfl)
      fun ⟨_, _, pc', _⟩ => ?_
    cases pc.symm.trans pc'

/-- The same of any action that does not begin another call. -/
theorem two_won_action (run : Reaches (system capacity moved) (start bytes) s trace)
    (calls : callOf thread trace = none ∨ callOf thread trace = some .bulkPop)
    {action : Action Thread Element} (only : ∀ op, action ≠ .call thread op)
    (step : system capacity moved s action = some (next, events)) :
    (callOf thread (trace ++ events) = none ∨ callOf thread (trace ++ events) = some .bulkPop) ∧
      (2 ≤ (wonBy thread (trace ++ events)).length ↔
        2 ≤ (wonBy thread trace).length ∨ action = .step thread ∧ TakesAgain s thread) := by
  cases action with
  | call other op =>
    have different : other ≠ thread := fun same => only op (by rw [same])
    rw [system] at step
    split at step
    · cases step
      rw [callOf_append, List.foldl_cons, afterEvent, if_neg different, wonBy, gathered_call,
        if_neg different]
      exact ⟨calls, (or_iff_left fun taken => by cases taken.1).symm⟩
    · cases step
  | step other =>
    by_cases this : other = thread
    · subst this
      have advanced : advance capacity s other (s.pc other) = some (next, events) := step
      rcases inCalls_of_reaches run other with ⟨_, idle⟩ | ⟨op, call, manner⟩
      · rw [idle] at advanced
        cases advanced
      · have isBulkPop : op = .bulkPop := by
          rcases calls with none | some
          · rw [none] at call
            cases call
          · exact Option.some.inj (call.symm.trans some)
        rw [isBulkPop] at manner
        refine ⟨?_, (two_won_step run manner advanced).trans ?_⟩
        · rw [callOf_append]
          exact (onward_advance manner (callOf other trace) advanced).elim
            (fun ended => .inl ended.2) fun goesOn => by rw [goesOn.2]; exact calls
        · rw [and_iff_right rfl]
    · have apart : thread ≠ other := fun same => this same.symm
      rw [callOf_append, call_advance_other apart _ step, wonBy,
        gathered_advance_other Event.won apart step]
      exact ⟨calls, (or_iff_left fun taken => this (by cases taken.1; rfl)).symm⟩

/-- Over a run of a call, no second ticket is won just if no step takes again. -/
theorem two_won_iff {entered : State Thread Element} {told later : List (Event Thread Element)}
    {schedule : List (Action Thread Element)}
    (run : Reaches (system capacity moved) (start bytes) entered told)
    (calls : callOf thread told = none ∨ callOf thread told = some .bulkPop)
    (only : ∀ op, .call thread op ∉ schedule)
    (executed : execute (system capacity moved) entered schedule = some (s, later)) :
    (callOf thread (told ++ later) = none ∨ callOf thread (told ++ later) = some .bulkPop) ∧
      (2 ≤ (wonBy thread (told ++ later)).length ↔
        2 ≤ (wonBy thread told).length ∨ ¬TakesOnce capacity moved thread entered schedule) := by
  induction schedule generalizing entered told later with
  | nil =>
    cases executed
    rw [List.append_nil]
    refine ⟨calls, (or_iff_left fun again => again ?_).symm⟩
    intro front back split
    cases front <;> cases split
  | cons action rest inductionHypothesis =>
    obtain ⟨next, events, onward, step, following, rfl⟩ := cons_of_execute executed
    obtain ⟨calls, first⟩ := two_won_action run calls
      (fun op same => only op (by rw [same]; exact List.mem_cons_self)) step
    obtain ⟨calls, others⟩ := inductionHypothesis (.next run step) calls
      (fun op member => only op (List.mem_cons_of_mem _ member)) following
    rw [← List.append_assoc]
    refine ⟨calls, others.trans ?_⟩
    rw [first, takesOnce_cons step, not_and_or, Classical.not_imp, not_not, or_assoc]

/-- In every run, what a call of `bulk_pop` has taken when it returns fills the range its iterator
leads into just when the iterator is an inserter, or no step of the call, having taken an element,
finds another published ticket at the tail. -/
theorem fillsRange_iff {before entered : State Thread Element}
    {told called later : List (Event Thread Element)} {schedule : List (Action Thread Element)}
    (run : Reaches (system capacity moved) (start bytes) before told)
    (call : system capacity moved before (.call thread .bulkPop) = some (entered, called))
    (executed : execute (system capacity moved) entered schedule = some (s, later))
    (only : ∀ op, .call thread op ∉ schedule)
    (few : FewTickets (told ++ called ++ later))
    (step : system capacity moved s (.step thread) = some (next, events))
    (returned : .returned thread (.count n) ∈ events) (out : Output Element) (room : out.Room n) :
    FillsRange out thread (told ++ called ++ later) n ↔
      out.writing = .inserter ∨ TakesOnce capacity moved thread entered schedule := by
  have during : Reaches (system capacity moved) (start bytes) s (told ++ called ++ later) :=
    (run.next call).trans (reaches_of_execute executed)
  have begun : callOf thread (told ++ called) = some .bulkPop ∧
      wonBy thread (told ++ called) = [] := by
    rw [system] at call
    split at call
    · cases call
      rw [callOf_append, List.foldl_cons, afterEvent, if_pos rfl, wonBy, gathered_call, if_pos rfl]
      exact ⟨rfl, rfl⟩
    · cases call
  obtain ⟨calls, second⟩ := two_won_iff (run.next call) (.inr begun.1) only executed
  have inside : callOf thread (told ++ called ++ later) = some .bulkPop := by
    refine calls.resolve_left fun ended => ?_
    rcases inCalls_of_reaches during thread with ⟨_, idle⟩ | ⟨op, calling, _⟩
    · replace step : advance capacity s thread (s.pc thread) = some (next, events) := step
      rw [idle] at step
      cases step
    · rw [ended] at calling
      cases calling
  obtain ⟨change, pc⟩ := reload_of_returned during inside rfl step returned
  have removed : (takenBy thread (told ++ called ++ later)).length = n :=
    tallied_of_reaches during thread n (by rw [pc]; rfl)
  have won : (wonBy thread (told ++ called ++ later)).length = n := by
    rw [inHand_of_reaches during thread, pc, List.length_append, List.length_map, removed]
    rfl
  have once : n ≤ 1 ↔ TakesOnce capacity moved thread entered schedule := by
    rw [won, begun.2] at second
    rw [← not_iff_not, ← second.trans (or_iff_right (by decide))]
    omega
  subst removed
  rw [← once, ← Output.stored_iff out _ room]
  constructor
  · exact fun fills => fills.stored
  · exact fun stored => ⟨rfl, takenBy_ordered during few, takenBy_delivered during few, stored⟩

end Fills

section Example

/-- One thread pushes two elements. -/
def pushBoth : List (Action Bool Nat) :=
  .call false (.bulkPush [7, 8]) :: List.replicate 7 (.step false)

def pushedBoth : List (Event Bool Nat) :=
  [.called false (.bulkPush [7, 8]), .claimedHead false 0 2, .constructed false 0 7,
    .constructed false 1 8, .returned false .unit]

/-- Another one pops both, and is about to return. -/
def popBoth : List (Action Bool Nat) := List.replicate 12 (.step true)

def poppedBoth : List (Event Bool Nat) :=
  [.claimedTail true 0, .read true 0 7, .destroyed 0 (some 0), .claimedTail true 1, .read true 1 8,
    .destroyed 1 (some 1)]

/-- All that has happened by then. -/
def bothMoved : List (Event Bool Nat) := pushedBoth ++ [.called true .bulkPop] ++ poppedBoth

theorem executed_popBoth : ∃ before entered s next,
    execute (system twoSlots id) (start fun _ => 0) pushBoth = some (before, pushedBoth) ∧
      system twoSlots id before (.call true .bulkPop) = some (entered, [.called true .bulkPop]) ∧
      execute (system twoSlots id) entered popBoth = some (s, poppedBoth) ∧
      system twoSlots id s (.step true) = some (next, [.returned true (.count 2)]) := by
  have traced : ((execute (system twoSlots id) (start fun _ => 0) pushBoth).bind fun pushed =>
      (system twoSlots id pushed.1 (.call true .bulkPop)).bind fun entered =>
        (execute (system twoSlots id) entered.1 popBoth).bind fun popped =>
          (system twoSlots id popped.1 (.step true)).map fun after =>
            (pushed.2, entered.2, popped.2, after.2)) =
      some (pushedBoth, [.called true .bulkPop], poppedBoth, [.returned true (.count 2)]) := rfl
  obtain ⟨⟨before, _⟩, pushed, traced⟩ := Option.bind_eq_some_iff.mp traced
  obtain ⟨⟨entered, _⟩, called, traced⟩ := Option.bind_eq_some_iff.mp traced
  obtain ⟨⟨s, _⟩, popped, traced⟩ := Option.bind_eq_some_iff.mp traced
  obtain ⟨⟨next, _⟩, step, same⟩ := Option.map_eq_some_iff.mp traced
  cases same
  exact ⟨before, entered, s, next, pushed, called, popped, step⟩

/-- A pointer to an array of two elements. -/
def ofArray : Output Nat := ⟨.pointer, 0, [none, none]⟩

/-- An inserter into an empty vector. -/
def intoVector : Output Nat := ⟨.inserter, 0, []⟩

theorem few_bothMoved : FewTickets bothMoved := fun side => by cases side <;> decide

/-- Through a pointer the second element overwrites the first. -/
theorem not_fillsRange_pointer : ∃ before entered s next,
    execute (system twoSlots id) (start fun _ => 0) pushBoth = some (before, pushedBoth) ∧
      system twoSlots id before (.call true .bulkPop) = some (entered, [.called true .bulkPop]) ∧
      execute (system twoSlots id) entered popBoth = some (s, poppedBoth) ∧
      system twoSlots id s (.step true) = some (next, [.returned true (.count 2)]) ∧
      FewTickets bothMoved ∧ ofArray.Room 2 ∧
      (ofArray.after true bothMoved).cells = [some (1, 8), none] ∧
      ¬ FillsRange ofArray true bothMoved 2 := by
  obtain ⟨before, entered, s, next, pushed, called, popped, step⟩ := executed_popBoth
  have left : (ofArray.after true bothMoved).cells = [some (1, 8), none] := rfl
  refine ⟨before, entered, s, next, pushed, called, popped, step, few_bothMoved,
    ⟨by simp [ofArray], by decide, by decide⟩, left, fun fills => ?_⟩
  have stored := fills.stored
  rw [left] at stored
  exact absurd stored (by decide)

/-- Through an inserter both stay. -/
theorem fillsRange_iff_inserter : ∃ before entered s next,
    execute (system twoSlots id) (start fun _ => 0) pushBoth = some (before, pushedBoth) ∧
      system twoSlots id before (.call true .bulkPop) = some (entered, [.called true .bulkPop]) ∧
      execute (system twoSlots id) entered popBoth = some (s, poppedBoth) ∧
      system twoSlots id s (.step true) = some (next, [.returned true (.count 2)]) ∧
      (FillsRange intoVector true bothMoved 2 ↔
        intoVector.writing = .inserter ∨ TakesOnce twoSlots id true entered popBoth) := by
  obtain ⟨before, entered, s, next, pushed, called, popped, step⟩ := executed_popBoth
  have only : ∀ op, Action.call true op ∉ popBoth := fun op member => by
    cases List.eq_of_mem_replicate member
  exact ⟨before, entered, s, next, pushed, called, popped, step,
    fillsRange_iff (reaches_of_execute pushed) called popped only few_bothMoved step
      (List.mem_singleton.mpr rfl) intoVector
      ⟨fun _ member => absurd member List.not_mem_nil, Nat.le_refl 0, fun other => by cases other⟩⟩

end Example

end MPMCQueue

end Sheep
