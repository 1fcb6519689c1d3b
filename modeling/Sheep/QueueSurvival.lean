/-
This file proves that the queue survives the end of its 64 bits. Its slots and turns fit
together modulo `2 ^ 64`, and in every run in which no thread falls `2 ^ 63` tickets
behind, however many elements go through, the tickets are handed out in order and the
element constructed with a ticket is read by the thread that has drawn the same ticket
of the tail. A thread that pushes and pops one element after another makes such runs of
any length.
-/

import Sheep.QueueFailures
import Sheep.QueueHandover

namespace Sheep

open Turnstile

namespace MPMCQueue

variable {Thread Element : Type} {capacity : Capacity}

/-! ### Tickets -/

/-- The tickets of a counter that an event hands out. -/
def Event.tickets (side : Side) : Event Thread Element → List UInt64
  | .claimedHead _ first count =>
      if side = .head then (List.range count).map fun place => first + UInt64.ofNat place else []
  | .claimedTail _ ticket => if side = .tail then [ticket] else []
  | _ => []

/-- The tickets that have been handed out in a run, in order. -/
def tickets (side : Side) (trace : List (Event Thread Element)) : List UInt64 :=
  trace.flatMap (Event.tickets side)

theorem tickets_append (side : Side) (trace events : List (Event Thread Element)) :
    tickets side (trace ++ events) = tickets side trace ++ tickets side events :=
  List.flatMap_append

theorem tickets_nil {side : Side} {events : List (Event Thread Element)}
    (nothing : ∀ event ∈ events, event.tickets side = []) : tickets side events = [] :=
  List.flatMap_eq_nil_iff.mpr nothing

/-! ### Claims -/

/-- What a thread claims in an event. -/
def Event.claim [DecidableEq Thread] (thread : Thread) :
    Event Thread Element → Option (Hand Side UInt64)
  | .claimedHead other first count => if other = thread then some ⟨.head, first, count⟩ else none
  | .claimedTail other ticket => if other = thread then some ⟨.tail, ticket, 1⟩ else none
  | _ => none

/-- The last claim of a thread. -/
def lastClaim [DecidableEq Thread] (thread : Thread) (trace : List (Event Thread Element)) :
    Option (Hand Side UInt64) :=
  trace.reverse.findSome? (Event.claim thread)

/-- A claim includes tickets that follow each other. -/
def Includes (claim part : Hand Side UInt64) : Prop :=
  part.counter = claim.counter ∧ ∃ before, part.first = claim.first + UInt64.ofNat before ∧
    before + part.count ≤ claim.count

/-- The elements that have been read, in order. -/
def received (trace : List (Event Thread Element)) : List Element :=
  trace.filterMap fun event =>
    match event with
    | .read _ _ element => some element
    | _ => none

/-- What the queue does as long as nobody falls behind. -/
structure HandsOver [DecidableEq Thread] (capacity : Capacity)
    (trace : List (Event Thread Element)) : Prop where
  /-- Both counters hand out the tickets 0, 1, 2 and so on, modulo `2 ^ 64`. -/
  inOrder : ∀ side, tickets side trace =
    (List.range (tickets side trace).length).map UInt64.ofNat
  /-- Who makes use of a ticket has drawn it with its last claim. -/
  claimed : ∀ before event after user side ticket, trace = before ++ event :: after →
    event.uses = some (user, side, ticket) →
    ∃ claim, lastClaim user before = some claim ∧ Includes claim ⟨side, ticket, 1⟩
  /-- In each slot an element is constructed and read with one ticket, and then the next with the
  ticket one capacity later. -/
  handed : ∀ index, index < capacity.value → ∃ uses content,
    Handing capacity index uses content (handing capacity index trace)

/-- The turns of a queue are right modulo `2 ^ 64`, for all of its tickets. -/
structure SurvivesWrap (capacity : Capacity) : Prop where
  slots : ∀ t, getSlot capacity t < capacity.value ∧
    getSlot capacity t = getSlot capacity (t + capacity.value)
  released : ∀ t, releasedTurn capacity t = freeTurn capacity (t + capacity.value)
  different : ∀ t u, t ≠ u → getSlot capacity t = getSlot capacity u →
    (t - u).toNat < 2 ^ 63 ∨ (u - t).toNat < 2 ^ 63 →
    [freeTurn capacity t, fullTurn capacity t, freeTurn capacity u, fullTurn capacity u].Nodup
  handsOver : ∀ {Thread Element : Type} [DecidableEq Thread] (moved : Element → Element)
    (bytes : UInt64 → Element) (s : State Thread Element) (trace : List (Event Thread Element)),
    Transitions.ReachesBy (State.StaysNear capacity moved) (system capacity moved) (start bytes) s
      trace → HandsOver capacity trace
  /-- There are such runs with any number of elements. -/
  goesOn : ∀ {Thread Element : Type} [DecidableEq Thread] (moved : Element → Element)
    (bytes : UInt64 → Element) (_ : Thread) (elements : List Element),
    ∃ (s : State Thread Element) (trace : List (Event Thread Element)),
      Transitions.ReachesBy (State.StaysNear capacity moved) (system capacity moved) (start bytes) s
        trace ∧ received trace = elements ∧
      s.head = UInt64.ofNat elements.length ∧ s.tail = UInt64.ofNat elements.length

/-! ### Tickets are handed out in order -/

section Tickets

variable [DecidableEq Thread] {s next : State Thread Element}
  {trace events : List (Event Thread Element)} {thread other : Thread}

/-- A step hands out the next tickets of each counter. -/
def Issues (s next : State Thread Element) (events : List (Event Thread Element)) : Prop :=
  ∀ side, tickets side events =
      (List.range (tickets side events).length).map (fun place =>
        s.counter side + UInt64.ofNat place) ∧
    next.counter side = s.counter side + UInt64.ofNat (tickets side events).length

omit [DecidableEq Thread] in
theorem issues_none (counter : ∀ side, next.counter side = s.counter side)
    (nothing : ∀ side, ∀ event ∈ events, event.tickets side = []) : Issues s next events := by
  intro side
  rw [tickets_nil (nothing side), counter]
  exact ⟨rfl, (UInt64.add_zero _).symm⟩

omit [DecidableEq Thread] in
theorem tickets_pushNext (side : Side) (ticket : UInt64) (after : AfterPush Element) :
    ∀ event ∈ (after.next thread ticket).2, event.tickets side = [] := by
  intro event member
  obtain ⟨value, rfl⟩ := returned_of_pushNext member
  rfl

omit [DecidableEq Thread] in
theorem tickets_popNext (side : Side) (ticket : UInt64) (after : AfterPop Element) :
    ∀ event ∈ (after.next thread ticket).2, event.tickets side = [] := by
  intro event member
  obtain ⟨value, rfl⟩ := returned_of_popNext member
  rfl

omit [DecidableEq Thread] in
theorem issues_head {count : Nat} (head : next.head = s.head + UInt64.ofNat count)
    (tail : next.tail = s.tail) (nothing : ∀ side, ∀ event ∈ events, event.tickets side = []) :
    Issues s next (.claimedHead thread s.head count :: events) := by
  intro side
  have rest := tickets_nil (nothing side)
  have whole : tickets side (.claimedHead thread s.head count :: events) =
      (Event.claimedHead thread s.head count : Event Thread Element).tickets side ++
        tickets side events := rfl
  rw [whole, rest, List.append_nil]
  cases side with
  | head =>
    rw [Event.tickets, if_pos rfl, List.length_map, List.length_range]
    exact ⟨rfl, head⟩
  | tail => exact ⟨rfl, tail.trans (UInt64.add_zero _).symm⟩

omit [DecidableEq Thread] in
theorem issues_tail (tail : next.tail = s.tail + 1) (head : next.head = s.head) :
    Issues s next [.claimedTail thread s.tail] := by
  intro side
  cases side with
  | head => exact ⟨rfl, head.trans (UInt64.add_zero _).symm⟩
  | tail =>
    have one : tickets .tail [(.claimedTail thread s.tail : Event Thread Element)] = [s.tail] := rfl
    rw [one]
    exact ⟨congrArg (fun ticket => [ticket]) (UInt64.add_zero s.tail).symm, tail⟩

theorem issues_advance (step : advance capacity s thread (s.pc thread) = some (next, events)) :
    Issues s next events := by
  cases advances_of_advance step with
  | fetchHead pc => exact issues_head rfl rfl fun side => tickets_pushNext side _ _
  | winHead pc => exact issues_head rfl rfl fun side => List.forall_mem_nil _
  | fetchTail pc | winTail pc => exact issues_tail rfl rfl
  | publish pc =>
    exact issues_none (fun side => by cases side <;> rfl) fun side => tickets_pushNext side _ _
  | release pc =>
    exact issues_none (fun side => by cases side <;> rfl) fun side => tickets_popNext side _ _
  | giveUpHead pc | giveUpTail pc | construct pc | read pc | destroy pc =>
    exact issues_none (fun side => by cases side <;> rfl)
      fun side => List.forall_mem_singleton.mpr rfl
  | _ => exact issues_none (fun side => by cases side <;> rfl) fun side => List.forall_mem_nil _

/-- The tickets handed out so far, and the counter. -/
structure Counts (s : State Thread Element) (trace : List (Event Thread Element)) : Prop where
  inOrder : ∀ side, tickets side trace =
    (List.range (tickets side trace).length).map UInt64.ofNat
  counter : ∀ side, s.counter side = UInt64.ofNat (tickets side trace).length

omit [DecidableEq Thread] in
theorem Counts.append (counts : Counts s trace) (issues : Issues s next events) :
    Counts next (trace ++ events) := by
  have onward (side : Side) : tickets side events =
      (List.range (tickets side events).length).map fun place =>
        UInt64.ofNat ((tickets side trace).length + place) := by
    have given := (issues side).1
    rw [counts.counter] at given
    simp only [UInt64.ofNat_add]
    exact given
  refine ⟨fun side => ?_, fun side => ?_⟩
  · rw [tickets_append, List.length_append, List.range_add, List.map_append, ← counts.inOrder,
      List.map_map]
    exact congrArg _ (onward side)
  · rw [(issues side).2, counts.counter, tickets_append, List.length_append, UInt64.ofNat_add]

theorem counts_of_reaches {moved : Element → Element} {bytes : UInt64 → Element}
    (run : Transitions.Reaches (system capacity moved) (start bytes) s trace) : Counts s trace := by
  refine run.invariant Counts ⟨fun _ => rfl, fun side => by cases side <;> rfl⟩ ?_
  intro s trace action next events _ counts step
  rcases system_cases step with ⟨thread, op, _, rfl, rfl⟩ | ⟨thread, advanced⟩
  · exact counts.append (issues_none (fun side => by cases side <;> rfl)
      fun side => List.forall_mem_singleton.mpr rfl)
  · exact counts.append (issues_advance advanced)

end Tickets

/-! ### Who makes use of a ticket has drawn it -/

section Claims

variable [DecidableEq Thread] {s next : State Thread Element}
  {trace events : List (Event Thread Element)} {thread other : Thread}
  {claim part hand : Hand Side UInt64}

theorem includes_refl (claim : Hand Side UInt64) : Includes claim claim :=
  ⟨rfl, 0, (UInt64.add_zero _).symm, Nat.le_of_eq (Nat.zero_add _)⟩

theorem Includes.trans (first : Includes claim part) (second : Includes part hand) :
    Includes claim hand := by
  obtain ⟨counter, before, start, less⟩ := first
  obtain ⟨counter', before', start', less'⟩ := second
  refine ⟨counter'.trans counter, before + before', ?_, by omega⟩
  rw [start', start, UInt64.ofNat_add, UInt64.add_assoc]

theorem lastClaim_append (thread : Thread) (trace events : List (Event Thread Element)) :
    lastClaim thread (trace ++ events) = (lastClaim thread events).or (lastClaim thread trace) := by
  rw [lastClaim, List.reverse_append, List.findSome?_append]
  rfl

theorem lastClaim_none (nothing : ∀ event ∈ events, event.claim thread = none) :
    lastClaim thread events = none :=
  List.findSome?_eq_none_iff.mpr fun event member => nothing event (List.mem_reverse.mp member)

theorem lastClaim_cons {event : Event Thread Element} (here : event.claim thread = some claim)
    (nothing : ∀ event ∈ events, event.claim thread = none) :
    lastClaim thread (event :: events) = some claim := by
  have last := lastClaim_append thread [event] events
  rw [lastClaim_none nothing, Option.none_or] at last
  refine last.trans ?_
  rw [lastClaim, List.reverse_singleton, List.findSome?_singleton, here]

theorem claim_other (different : other ≠ thread)
    (step : advance capacity s thread (s.pc thread) = some (next, events)) :
    ∀ event ∈ events, event.claim other = none := by
  intro event member
  have inside := inside_of_advance step event member
  cases event with
  | claimedHead user first count =>
    have same : user = thread := Option.some.inj inside
    rw [Event.claim, if_neg fun equal => different (equal.symm.trans same)]
  | claimedTail user ticket =>
    have same : user = thread := Option.some.inj inside
    rw [Event.claim, if_neg fun equal => different (equal.symm.trans same)]
  | _ => rfl

/-- The tickets that a thread has in hand after a step it has just drawn, or had before. -/
theorem claim_advance (step : advance capacity s thread (s.pc thread) = some (next, events))
    (carried : (next.pc thread).carried = some hand) (some : 0 < hand.count) :
    lastClaim thread events = .some hand ∨
      lastClaim thread events = none ∧ ∃ before, (s.pc thread).carried = .some before ∧
        0 < before.count ∧ Includes before hand := by
  have same {pc : Pc Element} (pcs : s.pc thread = pc)
      (kept : (next.pc thread).carried = pc.carried)
      (silent : ∀ event ∈ events, event.claim thread = none) :
      lastClaim thread events = .some hand ∨
        lastClaim thread events = none ∧ ∃ before, (s.pc thread).carried = .some before ∧
          0 < before.count ∧ Includes before hand := by
    refine .inr ⟨lastClaim_none silent, hand, ?_, some, includes_refl hand⟩
    rw [pcs, ← kept, carried]
  have drawn {event : Event Thread Element} (claims : event.claim thread = .some hand) :
      lastClaim thread [event] = .some hand := lastClaim_cons claims (List.forall_mem_nil _)
  cases advances_of_advance step with
  | @fetchHead writes pc =>
    rw [State.setPc_pc_self] at carried
    cases writes with
    | nil => cases carried
    | cons write rest =>
      cases carried
      exact .inl (drawn (if_pos rfl))
  | winHead pc | fetchTail pc | winTail pc =>
    rw [State.setPc_pc_self] at carried
    cases carried
    exact .inl (drawn (if_pos rfl))
  | spinFree pc | spinFull pc => exact same rfl rfl (List.forall_mem_nil _)
  | enterFree pc | enterFull pc =>
    exact same pc (by rw [State.setPc_pc_self]; rfl) (List.forall_mem_nil _)
  | construct pc | read pc | destroy pc =>
    exact same pc (by rw [State.setPc_pc_self]; rfl) (List.forall_mem_singleton.mpr rfl)
  | @publish ticket after pc =>
    rw [State.setPc_pc_self] at carried
    cases after with
    | returnTrue => cases carried
    | bulk rest =>
      cases rest with
      | nil => cases carried
      | cons write rest =>
        cases carried
        refine .inr ⟨rfl, ⟨.head, ticket, rest.length + 1 + 1⟩, by rw [pc]; rfl, Nat.succ_pos _,
          rfl, 1, rfl, ?_⟩
        show 1 + (rest.length + 1) ≤ rest.length + 1 + 1
        omega
  | @release ticket after pc =>
    rw [State.setPc_pc_self] at carried
    cases after with
    | done value => cases carried
    | drain change count =>
      cases carried
      cases some
  | _ =>
    rw [State.setPc_pc_self] at carried
    cases carried <;> cases some

/-- The tickets that threads have in hand are of their last claims. -/
def Owns (s : State Thread Element) (trace : List (Event Thread Element)) : Prop :=
  ∀ thread hand, (s.pc thread).carried = some hand → 0 < hand.count →
    ∃ claim, lastClaim thread trace = some claim ∧ Includes claim hand

theorem owns_of_reaches {moved : Element → Element} {bytes : UInt64 → Element}
    (run : Transitions.Reaches (system capacity moved) (start bytes) s trace) : Owns s trace := by
  refine run.invariant Owns (fun thread hand carried => by cases carried) ?_
  intro s trace action next events _ owns step thread hand carried some
  rcases system_cases step with ⟨caller, op, _, rfl, rfl⟩ | ⟨stepper, advanced⟩
  · have unclaimed : lastClaim thread [Event.called caller op] = none :=
      lastClaim_none (List.forall_mem_singleton.mpr rfl)
    rw [lastClaim_append, unclaimed, Option.none_or]
    by_cases same : thread = caller
    · subst same
      rw [State.setPc_pc_self] at carried
      cases op <;> cases carried
    · rw [State.setPc_pc_other _ _ _ same] at carried
      exact owns thread hand carried some
  · rw [lastClaim_append]
    by_cases same : thread = stepper
    · subst same
      rcases claim_advance advanced carried some with new | ⟨none, before, held, more, part⟩
      · exact ⟨hand, by rw [new, Option.some_or], includes_refl hand⟩
      · obtain ⟨claim, last, whole⟩ := owns thread before held more
        exact ⟨claim, by rw [none, Option.none_or, last], whole.trans part⟩
    · rw [pc_advance_other advanced same] at carried
      rw [lastClaim_none (claim_other same advanced), Option.none_or]
      exact owns thread hand carried some

/-- A step that makes use of a ticket does nothing else, and the thread has it in hand. -/
theorem carried_of_uses (step : advance capacity s thread (s.pc thread) = some (next, events))
    {event : Event Thread Element} (member : event ∈ events) {user : Thread} {side : Side}
    {ticket : UInt64} (uses : event.uses = some (user, side, ticket)) :
    events = [event] ∧ user = thread ∧
      ∃ count, (s.pc thread).carried = some ⟨side, ticket, count + 1⟩ := by
  have unused (none : ∀ event ∈ events, event.uses = none) : events = [event] ∧ user = thread ∧
      ∃ count, (s.pc thread).carried = some ⟨side, ticket, count + 1⟩ := by
    rw [none event member] at uses
    cases uses
  cases advances_of_advance step with
  | fetchHead pc => exact unused (List.forall_mem_cons.mpr ⟨rfl, uses_pushNext⟩)
  | publish pc => exact unused uses_pushNext
  | release pc => exact unused uses_popNext
  | construct pc | read pc =>
    cases List.mem_singleton.mp member
    cases uses
    exact ⟨rfl, rfl, _, by rw [pc]; rfl⟩
  | winHead | giveUpHead | fetchTail | winTail | giveUpTail | destroy =>
    exact unused (List.forall_mem_singleton.mpr rfl)
  | _ => exact unused (List.forall_mem_nil _)

theorem claimed_of_reaches {moved : Element → Element} {bytes : UInt64 → Element}
    (run : Transitions.Reaches (system capacity moved) (start bytes) s trace)
    {before after : List (Event Thread Element)} {event : Event Thread Element} {user : Thread}
    {side : Side} {ticket : UInt64} (split : trace = before ++ event :: after)
    (uses : event.uses = some (user, side, ticket)) :
    ∃ claim, lastClaim user before = some claim ∧ Includes claim ⟨side, ticket, 1⟩ := by
  refine run.invariant (fun s trace => ∀ before after, trace = before ++ event :: after →
    ∃ claim, lastClaim user before = some claim ∧ Includes claim ⟨side, ticket, 1⟩) ?_ ?_ before
    after split
  · intro before after split
    have sizes := congrArg List.length split
    simp at sizes
  · intro s trace action next events run inductionHypothesis step before after split
    rcases split_append split with ⟨rest, same, _⟩ | ⟨first, rfl, same⟩
    · exact inductionHypothesis before rest same
    · have member : event ∈ events := by
        rw [same]
        exact List.mem_append_right _ List.mem_cons_self
      rcases system_cases step with ⟨caller, op, _, _, rfl⟩ | ⟨stepper, advanced⟩
      · rw [List.mem_singleton.mp member] at uses
        cases uses
      · obtain ⟨alone, rfl, count, carried⟩ := carried_of_uses advanced member uses
        -- nothing comes before the event in its step
        rw [alone] at same
        have nothing : first = [] := by
          have sizes := congrArg List.length same
          rw [List.length_singleton, List.length_append, List.length_cons] at sizes
          exact List.eq_nil_of_length_eq_zero (by omega)
        rw [nothing, List.append_nil]
        obtain ⟨claim, last, whole⟩ := owns_of_reaches run user _ carried (Nat.succ_pos _)
        refine ⟨claim, last, whole.trans ⟨rfl, 0, (UInt64.add_zero _).symm, ?_⟩⟩
        show 0 + 1 ≤ count + 1
        omega

end Claims

/-! ### One element after another -/

section Rounds

variable [DecidableEq Thread] {moved : Element → Element} {bytes : UInt64 → Element}
  {s : State Thread Element} {trace : List (Event Thread Element)} {n : Nat}

/-- Nothing is in the queue and nobody uses it, after so many elements. -/
structure Quiet (capacity : Capacity) (s : State Thread Element) (n : Nat) : Prop where
  head : s.head = UInt64.ofNat n
  tail : s.tail = UInt64.ofNat n
  pc : ∀ thread, s.pc thread = .idle
  free : ∀ ticket, n ≤ ticket → ticket < n + capacity.value.toNat →
    (s.slots (getSlot capacity (UInt64.ofNat ticket))).turn =
      freeTurn capacity (UInt64.ofNat ticket)

omit [DecidableEq Thread] in
theorem quiet_start (capacity : Capacity) (bytes : UInt64 → Element) :
    Quiet capacity (start bytes : State Thread Element) 0 where
  head := rfl
  tail := rfl
  pc _ := rfl
  free ticket _ less := by
    rw [Nat.zero_add] at less
    rw [freeTurn_ofNat, Nat.div_eq_of_lt less]
    exact (turnAt_zero capacity).symm

theorem staysNear_of_near {next : State Thread Element} {action : Action Thread Element}
    {events : List (Event Thread Element)}
    (step : system capacity moved s action = some (next, events)) (near : next.Near) :
    s.StaysNear capacity moved action := by
  intro next' events' step'
  rw [step] at step'
  cases step'
  exact near

/-- A step of a thread that is alone, with one ticket in hand at most. -/
theorem reachesBy_alone {base : State Thread Element} {pc : Pc Element}
    {events : List (Event Thread Element)} {thread : Thread} (after : State Thread Element)
    (pc' : Pc Element)
    (run : Transitions.ReachesBy (State.StaysNear capacity moved) (system capacity moved)
      (start bytes) (base.setPc thread pc) trace)
    (idle : ∀ other, after.pc other = .idle)
    (hand : ∀ hand, pc'.carried = some hand →
      hand.count = 1 ∧ after.counter hand.counter = hand.first + 1)
    (step : advance capacity (base.setPc thread pc) thread pc =
      some (after.setPc thread pc', events)) :
    Transitions.ReachesBy (State.StaysNear capacity moved) (system capacity moved)
      (start bytes) (after.setPc thread pc') (trace ++ events) := by
  have stepped : system capacity moved (base.setPc thread pc) (.step thread) =
      some (after.setPc thread pc', events) := by
    rw [step_eq (State.setPc_pc_self base thread pc)]
    exact step
  refine .next run (staysNear_of_near stepped ?_) stepped
  intro other hand' carried
  by_cases same : other = thread
  · subst same
    rw [State.setPc_pc_self] at carried
    obtain ⟨one, ahead⟩ := hand hand' carried
    show hand'.count ≤ (after.counter hand'.counter - hand'.first).toNat ∧
      (after.counter hand'.counter - hand'.first).toNat < 2 ^ 63
    rw [one, ahead, UInt64.add_comm, UInt64.add_sub_cancel]
    decide
  · rw [State.setPc_pc_other _ _ _ same, idle] at carried
    cases carried

/-- A call of a thread, when all are idle. -/
theorem reachesBy_call (thread : Thread) (op : Op Element)
    (run : Transitions.ReachesBy (State.StaysNear capacity moved) (system capacity moved)
      (start bytes) s trace) (idle : ∀ other, s.pc other = .idle) :
    Transitions.ReachesBy (State.StaysNear capacity moved) (system capacity moved)
      (start bytes) (s.setPc thread (op.entry moved)) (trace ++ [.called thread op]) := by
  have called := call_eq capacity moved op (idle thread)
  refine .next run (staysNear_of_near called ?_) called
  intro other hand carried
  by_cases same : other = thread
  · subst same
    rw [State.setPc_pc_self] at carried
    cases op <;> cases carried
  · rw [State.setPc_pc_other _ _ _ same, idle] at carried
    cases carried

/-- An element has been pushed into the slot of the head. -/
def State.pushed (capacity : Capacity) (s : State Thread Element) (element : Element) :
    State Thread Element :=
  ({ s with head := s.head + 1 } : State Thread Element).setSlot (getSlot capacity s.head)
    ⟨fullTurn capacity s.head, element, some s.head⟩

/-- The element in the slot of the tail has been popped. -/
def State.popped (capacity : Capacity) (moved : Element → Element) (s : State Thread Element) :
    State Thread Element :=
  ({ s with tail := s.tail + 1 } : State Thread Element).setSlot (getSlot capacity s.tail)
    ⟨releasedTurn capacity s.tail, moved (s.slots (getSlot capacity s.tail)).data, none⟩

section Slots

omit [DecidableEq Thread]

variable {index : UInt64}

theorem pushed_slots_self (s : State Thread Element) (element : Element) :
    (s.pushed capacity element).slots (getSlot capacity s.head) =
      ⟨fullTurn capacity s.head, element, some s.head⟩ := State.setSlot_slots_self ..

theorem pushed_slots_other (element : Element) (different : index ≠ getSlot capacity s.head) :
    (s.pushed capacity element).slots index = s.slots index :=
  State.setSlot_slots_other _ _ _ different

theorem popped_turn_self (s : State Thread Element) :
    ((s.popped capacity moved).slots (getSlot capacity s.tail)).turn =
      releasedTurn capacity s.tail := congrArg Slot.turn (State.setSlot_slots_self ..)

theorem popped_slots_other (different : index ≠ getSlot capacity s.tail) :
    (s.popped capacity moved).slots index = s.slots index :=
  State.setSlot_slots_other _ _ _ different

end Slots

theorem reachesBy_push (thread : Thread) (element : Element)
    (run : Transitions.ReachesBy (State.StaysNear capacity moved) (system capacity moved)
      (start bytes) s trace) (idle : ∀ other, s.pc other = .idle)
    (good : freeTurn capacity s.head = (s.slots (getSlot capacity s.head)).turn) :
    Transitions.ReachesBy (State.StaysNear capacity moved) (system capacity moved) (start bytes)
      (s.pushed capacity element) (trace ++ [.called thread (.emplace element)] ++
        [.claimedHead thread s.head 1] ++ [] ++ [.constructed thread s.head element] ++
          [.returned thread .unit]) := by
  let write : Element → Element := fun _ => element
  let index := getSlot capacity s.head
  let drawn : State Thread Element := { s with head := s.head + 1 }
  let written := drawn.setSlot index ((s.slots index).construct s.head write)
  have mine {after : State Thread Element} (ahead : after.head = s.head + 1)
      (hand : Hand Side UInt64) (same : some ⟨.head, s.head, 1⟩ = some hand) :
      hand.count = 1 ∧ after.counter hand.counter = hand.first + 1 := by
    cases same
    exact ⟨rfl, ahead⟩
  have called := reachesBy_call thread (.emplace element) run idle
  have claims := reachesBy_alone drawn (.awaitFree s.head write []) called idle (mine rfl) (by
    show some ((drawn.setPc thread _).setPc thread _, _) = _
    rw [State.setPc_setPc]
    rfl)
  have enters := reachesBy_alone drawn (.construct s.head write (.bulk [])) claims idle
    (mine rfl) (by
    rw [advance, State.setPc_slots, if_pos good, State.setPc_setPc])
  have constructs := reachesBy_alone written (.publish s.head (.bulk [])) enters idle (mine rfl) (by
    show some (((drawn.setSlot _ _).setPc thread _).setPc thread _, _) = _
    rw [State.setPc_setPc]
    rfl)
  have publishes := reachesBy_alone (s.pushed capacity element) .idle constructs idle (by
    intro hand carried
    cases carried) (by
    rw [advance, State.setPc_slots, State.setSlot_slots_self, setSlot_setPc_setSlot,
      State.setPc_setPc]
    rfl)
  have back : (s.pushed capacity element).setPc thread .idle = s.pushed capacity element :=
    setPc_of_pc (idle thread)
  rw [back] at publishes
  exact publishes

theorem reachesBy_pop (thread : Thread)
    (run : Transitions.ReachesBy (State.StaysNear capacity moved) (system capacity moved)
      (start bytes) s trace) (idle : ∀ other, s.pc other = .idle)
    (good : fullTurn capacity s.tail = (s.slots (getSlot capacity s.tail)).turn) :
    Transitions.ReachesBy (State.StaysNear capacity moved) (system capacity moved) (start bytes)
      (s.popped capacity moved) (trace ++ [.called thread .pop] ++
        [.claimedTail thread s.tail] ++ [] ++
          [.read thread s.tail (s.slots (getSlot capacity s.tail)).data] ++
            [.destroyed (getSlot capacity s.tail) (s.slots (getSlot capacity s.tail)).object] ++
              [.returned thread .unit]) := by
  let slot := s.slots (getSlot capacity s.tail)
  let drawn : State Thread Element := { s with tail := s.tail + 1 }
  let used := drawn.setSlot (getSlot capacity s.tail) (slot.use moved)
  let destroyed := drawn.setSlot (getSlot capacity s.tail) (slot.use moved).destroy
  have mine {after : State Thread Element} (ahead : after.tail = s.tail + 1)
      (hand : Hand Side UInt64) (same : some ⟨.tail, s.tail, 1⟩ = some hand) :
      hand.count = 1 ∧ after.counter hand.counter = hand.first + 1 := by
    cases same
    exact ⟨rfl, ahead⟩
  have called := reachesBy_call thread .pop run idle
  have claims := reachesBy_alone drawn (.awaitFull s.tail moved) called idle (mine rfl) (by
    show some ((drawn.setPc thread _).setPc thread _, _) = _
    rw [State.setPc_setPc]
    rfl)
  have enters := reachesBy_alone drawn (.read s.tail moved (.done .unit)) claims idle (mine rfl) (by
    rw [advance, State.setPc_slots, if_pos good, State.setPc_setPc])
  have reads := reachesBy_alone used (.destroy s.tail (.done .unit)) enters idle (mine rfl) (by
    show some (((drawn.setSlot _ _).setPc thread _).setPc thread _, _) = _
    rw [State.setPc_setPc]
    rfl)
  have destroys := reachesBy_alone destroyed (.release s.tail (.done .unit)) reads idle
    (mine rfl) (by
    rw [advance, State.setPc_slots, State.setSlot_slots_self, setSlot_setPc_setSlot,
      State.setPc_setPc])
  have releases := reachesBy_alone (s.popped capacity moved) .idle destroys idle (by
    intro hand carried
    cases carried) (by
    rw [advance, State.setPc_slots, State.setSlot_slots_self, setSlot_setPc_setSlot,
      State.setPc_setPc]
    rfl)
  have back : (s.popped capacity moved).setPc thread .idle = s.popped capacity moved :=
    setPc_of_pc (idle thread)
  rw [back] at releases
  exact releases

omit [DecidableEq Thread] in
/-- A slot that is used again has been released for it. -/
theorem Quiet.next (quiet : Quiet capacity s n) (element : Element) :
    Quiet capacity ((s.pushed capacity element).popped capacity moved) (n + 1) where
  head := by
    show s.head + 1 = _
    rw [quiet.head, UInt64.ofNat_add]
    rfl
  tail := by
    show s.tail + 1 = _
    rw [quiet.tail, UInt64.ofNat_add]
    rfl
  pc := quiet.pc
  free ticket low high := by
    have positive := capacity.pos
    have same : s.head = s.tail := quiet.head.trans quiet.tail.symm
    rcases Nat.lt_or_eq_of_le (Nat.lt_succ_iff.mp (Nat.succ_add n _ ▸ high)) with less | equal
    · have other : getSlot capacity (UInt64.ofNat ticket) ≠ getSlot capacity s.tail := by
        intro slot
        rw [quiet.tail, ← UInt64.toNat_inj, toNat_getSlot_ofNat, toNat_getSlot_ofNat] at slot
        have multiple := Nat.sub_mod_eq_zero_of_mod_eq slot
        rw [Nat.mod_eq_of_lt (by omega)] at multiple
        omega
      have before : getSlot capacity (UInt64.ofNat ticket) ≠ getSlot capacity s.head := by
        rw [same]
        exact other
      rw [popped_slots_other (s := s.pushed capacity element) other,
        pushed_slots_other element before]
      exact quiet.free ticket (by omega) less
    · have again : UInt64.ofNat ticket = s.tail + capacity.value := by
        rw [equal, UInt64.ofNat_add, UInt64.ofNat_toNat, quiet.tail]
      rw [again, getSlot_add_capacity]
      exact (popped_turn_self _).trans (releasedTurn_eq_freeTurn capacity s.tail)

omit [DecidableEq Thread] in
theorem received_append (trace events : List (Event Thread Element)) :
    received (trace ++ events) = received trace ++ received events :=
  List.filterMap_append

/-- A thread pushes an element and pops it. -/
theorem Quiet.round (quiet : Quiet capacity s n) (thread : Thread) (element : Element)
    (run : Transitions.ReachesBy (State.StaysNear capacity moved) (system capacity moved)
      (start bytes) s trace) :
    ∃ next events, Transitions.ReachesBy (State.StaysNear capacity moved) (system capacity moved)
      (start bytes) next (trace ++ events) ∧ received events = [element] ∧
        Quiet capacity next (n + 1) := by
  have same : s.head = s.tail := quiet.head.trans quiet.tail.symm
  have good : freeTurn capacity s.head = (s.slots (getSlot capacity s.head)).turn := by
    rw [quiet.head]
    exact (quiet.free n (Nat.le_refl _) (Nat.lt_add_of_pos_right capacity.pos)).symm
  have stored : (s.pushed capacity element).slots (getSlot capacity s.tail) =
      ⟨fullTurn capacity s.tail, element, some s.tail⟩ := by
    rw [← same]
    exact pushed_slots_self s element
  have pushes := reachesBy_push thread element run quiet.pc good
  have pops := reachesBy_pop thread pushes quiet.pc (by
    show fullTurn capacity s.tail =
      ((s.pushed capacity element).slots (getSlot capacity s.tail)).turn
    rw [stored])
  simp only [List.append_assoc] at pops
  refine ⟨_, _, pops, ?_, quiet.next element⟩
  show [((s.pushed capacity element).slots (getSlot capacity s.tail)).data] = [element]
  rw [stored]

/-- It does so with one element after another, however many there are. -/
theorem exists_reachesBy (capacity : Capacity) (moved : Element → Element)
    (bytes : UInt64 → Element) (thread : Thread) (elements : List Element) :
    ∃ (s : State Thread Element) (trace : List (Event Thread Element)),
      Transitions.ReachesBy (State.StaysNear capacity moved) (system capacity moved) (start bytes) s
        trace ∧ received trace = elements ∧ Quiet capacity s elements.length := by
  induction elements using List.reverseRecOn with
  | nil => exact ⟨_, _, .start, rfl, quiet_start capacity bytes⟩
  | append_singleton elements element inductionHypothesis =>
    obtain ⟨s, trace, run, sofar, quiet⟩ := inductionHypothesis
    obtain ⟨next, events, onward, one, quiet⟩ := quiet.round thread element run
    refine ⟨next, trace ++ events, onward, ?_, ?_⟩
    · rw [received_append, sofar, one]
    · rw [List.length_append]
      exact quiet

end Rounds

/-! ### The queue survives -/

theorem handsOver_of_reachesBy [DecidableEq Thread] {moved : Element → Element}
    {bytes : UInt64 → Element} {s : State Thread Element} {trace : List (Event Thread Element)}
    (run : Transitions.ReachesBy (State.StaysNear capacity moved) (system capacity moved)
      (start bytes) s trace) : HandsOver capacity trace where
  inOrder := (counts_of_reaches run.reaches).inOrder
  claimed _ _ _ _ _ _ split uses := claimed_of_reaches run.reaches split uses
  handed index _ := by
    obtain ⟨ledger, uses, _, handed⟩ := accounted_of_reachesBy run
    obtain ⟨content, told, _⟩ := handed.told index
    exact ⟨uses index, content, told⟩

/-- The turn protocol survives the end of the 64 bits. -/
theorem survivesWrap (capacity : Capacity) : SurvivesWrap capacity where
  slots t := ⟨getSlot_lt capacity t, (getSlot_add_capacity capacity t).symm⟩
  released := releasedTurn_eq_freeTurn capacity
  different _ _ different slot near := nodup_turns capacity different slot near
  handsOver _ _ _ _ run := handsOver_of_reachesBy run
  goesOn moved bytes thread elements := by
    obtain ⟨s, trace, run, read, quiet⟩ := exists_reachesBy capacity moved bytes thread elements
    exact ⟨s, trace, run, read, quiet.head, quiet.tail⟩

end MPMCQueue

end Sheep
