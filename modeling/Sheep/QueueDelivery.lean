/-
This file proves that the queue delivers exactly once and in ticket order. The
consumer that has claimed a ticket of the tail reads what the producer that has
claimed the same ticket of the head has constructed; nothing is read twice or
overwritten unread; and the elements of a bulk push have consecutive tickets.
-/

import Sheep.QueueStory

namespace Sheep

open Turnstile

namespace MPMCQueue

variable {Thread Element : Type} {capacity : Capacity} {index : UInt64}

/-! ### Splitting a trace -/

/-- An event of two stretches is in the first or in the second. -/
theorem split_append {trace events before after : List (Event Thread Element)}
    {event : Event Thread Element} (split : trace ++ events = before ++ event :: after) :
    (∃ rest, trace = before ++ event :: rest ∧ after = rest ++ events) ∨
      ∃ first, before = trace ++ first ∧ events = first ++ event :: after := by
  rcases List.append_eq_append_iff.mp split with ⟨first, same, same'⟩ | ⟨rest, same, same'⟩
  · exact Or.inr ⟨first, same, same'⟩
  · cases rest with
    | nil => exact Or.inr ⟨[], by simpa using same.symm, by simpa using same'.symm⟩
    | cons head tail =>
      injection same' with sameHead sameTail
      subst sameHead
      exact Or.inl ⟨tail, same, sameTail⟩

/-- An event of a stretch and one more event is that event or before it. -/
theorem split_snoc {trace before after : List (Event Thread Element)}
    {last event : Event Thread Element} (split : trace ++ [last] = before ++ event :: after) :
    (trace = before ∧ last = event ∧ after = []) ∨
      ∃ rest, trace = before ++ event :: rest ∧ after = rest ++ [last] := by
  rcases split_append split with ⟨rest, same, same'⟩ | ⟨first, same, same'⟩
  · exact Or.inr ⟨rest, same, same'⟩
  · cases first with
    | nil =>
      injection same' with sameHead sameTail
      exact Or.inl ⟨by simpa using same.symm, sameHead, sameTail.symm⟩
    | cons head tail =>
      have sizes := congrArg List.length same'
      simp at sizes

theorem story_split {before after : List (Event Thread Element)} {event : Event Thread Element}
    (here : event.slot capacity = some index) :
    story capacity index (before ++ event :: after) =
      story capacity index before ++ event :: story capacity index after := by
  rw [← List.singleton_append, story_append, story_append, story_self here,
    List.singleton_append]

theorem mem_of_mem_story {trace : List (Event Thread Element)} {event : Event Thread Element}
    (member : event ∈ story capacity index trace) : event ∈ trace :=
  List.mem_of_mem_filter member

/-! ### What a story tells -/

/-- An element that lives in a slot was constructed there. -/
theorem Story.constructed_of_full {lap : Nat} {ticket : UInt64} {element : Element}
    {events : List (Event Thread Element)}
    (told : Story capacity index lap (.full ticket element) events) :
    ∃ producer, .constructed producer ticket element ∈ events := by
  cases told with
  | construct _ _ _ => exact ⟨_, List.mem_append_right _ List.mem_cons_self⟩

/-- An element that is read was constructed before. -/
theorem Story.constructed_of_read {lap : Nat} {phase : Phase Element}
    {events before after : List (Event Thread Element)} {thread : Thread} {ticket : UInt64}
    {element : Element} (told : Story capacity index lap phase events)
    (split : events = before ++ .read thread ticket element :: after) :
    ∃ producer, .constructed producer ticket element ∈ before := by
  induction told generalizing after with
  | fresh =>
    have sizes := congrArg List.length split
    simp at sizes
  | construct told place lap inductionHypothesis =>
    rcases split_snoc split with ⟨_, same, _⟩ | ⟨rest, same, _⟩
    · cases same
    · exact inductionHypothesis same
  | read told inductionHypothesis =>
    rcases split_snoc split with ⟨rfl, same, _⟩ | ⟨rest, same, _⟩
    · cases same
      exact told.constructed_of_full
    · exact inductionHypothesis same
  | destroy told inductionHypothesis =>
    rcases split_snoc split with ⟨_, same, _⟩ | ⟨rest, same, _⟩
    · cases same
    · exact inductionHypothesis same

/-- An element that was constructed still lives in its slot, or has been read since. -/
theorem Story.read_of_constructed {lap : Nat} {phase : Phase Element}
    {events before after : List (Event Thread Element)} {thread : Thread} {ticket : UInt64}
    {element : Element} (told : Story capacity index lap phase events)
    (split : events = before ++ .constructed thread ticket element :: after) :
    phase = .full ticket element ∨ ∃ consumer, .read consumer ticket element ∈ after := by
  induction told generalizing after with
  | fresh =>
    have sizes := congrArg List.length split
    simp at sizes
  | construct told place lap inductionHypothesis =>
    rcases split_snoc split with ⟨_, same, _⟩ | ⟨rest, same, rfl⟩
    · cases same
      exact Or.inl rfl
    · obtain ⟨consumer, member⟩ := (inductionHypothesis same).resolve_left (by rintro ⟨⟩)
      exact Or.inr ⟨consumer, List.mem_append_left _ member⟩
  | read told inductionHypothesis =>
    rcases split_snoc split with ⟨_, same, _⟩ | ⟨rest, same, rfl⟩
    · cases same
    · rcases inductionHypothesis same with full | ⟨consumer, member⟩
      · cases full
        exact Or.inr ⟨_, List.mem_append_right _ List.mem_cons_self⟩
      · exact Or.inr ⟨consumer, List.mem_append_left _ member⟩
  | destroy told inductionHypothesis =>
    rcases split_snoc split with ⟨_, same, _⟩ | ⟨rest, same, rfl⟩
    · cases same
    · obtain ⟨consumer, member⟩ := (inductionHypothesis same).resolve_left (by rintro ⟨⟩)
      exact Or.inr ⟨consumer, List.mem_append_left _ member⟩

/-- Between two constructions in a slot the first element is read. -/
theorem Story.read_between {lap : Nat} {phase : Phase Element}
    {events before middle after : List (Event Thread Element)} {thread other : Thread}
    {ticket ticket' : UInt64} {element element' : Element}
    (told : Story capacity index lap phase events)
    (split : events = before ++ .constructed thread ticket element ::
      (middle ++ .constructed other ticket' element' :: after)) :
    ∃ consumer, .read consumer ticket element ∈ middle := by
  have regroup : before ++ Event.constructed thread ticket element ::
      (middle ++ Event.constructed other ticket' element' :: after) =
      (before ++ .constructed thread ticket element :: middle) ++
        .constructed other ticket' element' :: after := by simp
  rw [regroup] at split
  clear regroup
  induction told generalizing after with
  | fresh =>
    have sizes := congrArg List.length split
    simp at sizes
  | construct told place lap inductionHypothesis =>
    rcases split_snoc split with ⟨same, _, _⟩ | ⟨rest, same, _⟩
    · exact (told.read_of_constructed same).resolve_left (by rintro ⟨⟩)
    · exact inductionHypothesis same
  | read told inductionHypothesis =>
    rcases split_snoc split with ⟨_, same, _⟩ | ⟨rest, same, _⟩
    · cases same
    · exact inductionHypothesis same
  | destroy told inductionHypothesis =>
    rcases split_snoc split with ⟨_, same, _⟩ | ⟨rest, same, _⟩
    · cases same
    · exact inductionHypothesis same

/-! ### How often -/

def Event.constructs (ticket : UInt64) : Event Thread Element → Bool
  | .constructed _ ticket' _ => ticket' == ticket
  | _ => false

def Event.reads (ticket : UInt64) : Event Thread Element → Bool
  | .read _ ticket' _ => ticket' == ticket
  | _ => false

def Event.destroys (ticket : UInt64) : Event Thread Element → Bool
  | .destroyed _ object => object == some ticket
  | _ => false

/-- Whether the element of the current lap has been constructed. -/
def Phase.begun : Phase Element → Nat
  | .raw => 0
  | .full _ _ => 1
  | .used _ => 1

/-- Whether it has been read. -/
def Phase.read : Phase Element → Nat
  | .raw => 0
  | .full _ _ => 0
  | .used _ => 1

theorem count_lap {lap ticket : Nat} {holds : Bool} (here : holds = true ↔ ticket = lap) :
    (if ticket < lap then 1 else 0) + (if holds = true then 1 else 0) =
      if ticket < lap + 1 then 1 else 0 := by
  by_cases this : ticket = lap
  · rw [if_pos (here.mpr this), if_neg (by omega), if_pos (by omega)]
  · rw [if_neg fun holds => this (here.mp holds), Nat.add_zero]
    by_cases less : ticket < lap
    · rw [if_pos less, if_pos (by omega)]
    · rw [if_neg less, if_neg (by omega)]

/-- In the story of its slot every ticket has been used as often as the lap tells. -/
theorem Story.counts {lap : Nat} {phase : Phase Element} {events : List (Event Thread Element)}
    (told : Story capacity index lap phase events) {ticket : UInt64}
    (place : getSlot capacity ticket = index) :
    events.countP (Event.constructs ticket) =
        (if ticket.toNat / capacity.value.toNat < lap + phase.begun then 1 else 0) ∧
      events.countP (Event.reads ticket) =
        (if ticket.toNat / capacity.value.toNat < lap + phase.read then 1 else 0) ∧
      events.countP (Event.destroys ticket) =
        (if ticket.toNat / capacity.value.toNat < lap then 1 else 0) := by
  have same {other : UInt64} {lap : Nat}
      (given : getSlot capacity other = index ∧ other.toNat / capacity.value.toNat = lap) :
      (other == ticket) = true ↔ ticket.toNat / capacity.value.toNat = lap := by
    rw [beq_iff_eq]
    constructor
    · rintro rfl
      exact given.2
    · exact fun equal => ticket_ext capacity (given.1.trans place.symm) (given.2.trans equal.symm)
  induction told with
  | fresh => exact ⟨rfl, rfl, rfl⟩
  | construct told place' lap' inductionHypothesis =>
    obtain ⟨constructed, read, destroyed⟩ := inductionHypothesis
    refine ⟨?_, ?_, ?_⟩
    · rw [List.countP_append, constructed, List.countP_singleton]
      exact count_lap (same ⟨place', lap'⟩)
    · rw [List.countP_append, read, List.countP_singleton]
      rfl
    · rw [List.countP_append, destroyed, List.countP_singleton]
      rfl
  | read told inductionHypothesis =>
    obtain ⟨constructed, read, destroyed⟩ := inductionHypothesis
    refine ⟨?_, ?_, ?_⟩
    · rw [List.countP_append, constructed, List.countP_singleton]
      rfl
    · rw [List.countP_append, read, List.countP_singleton]
      exact count_lap (same told.ticket_of_full)
    · rw [List.countP_append, destroyed, List.countP_singleton]
      rfl
  | destroy told inductionHypothesis =>
    obtain ⟨constructed, read, destroyed⟩ := inductionHypothesis
    refine ⟨?_, ?_, ?_⟩
    · rw [List.countP_append, constructed, List.countP_singleton]
      rfl
    · rw [List.countP_append, read, List.countP_singleton]
      rfl
    · rw [List.countP_append, destroyed, List.countP_singleton]
      refine count_lap ?_
      rw [← same told.ticket_of_used, Event.destroys]
      simp

/-! ### Traces and their stories -/

variable {s next : State Thread Element} {trace events : List (Event Thread Element)}

/-- Every slot is at some stage. -/
theorem exists_stage (capacity : Capacity) (s : State Thread Element) (index : UInt64) :
    ∃ stage, StageAt capacity s index stage := by
  by_cases this : ∃ thread ticket stage, (s.pc thread).tends = some (ticket, stage) ∧
      getSlot capacity ticket = index
  · obtain ⟨thread, ticket, stage, tends, place⟩ := this
    exact ⟨stage, Or.inl ⟨thread, ticket, tends, place⟩⟩
  · exact ⟨.outside, Or.inr ⟨rfl, fun thread ticket stage tends place =>
      this ⟨thread, ticket, stage, tends, place⟩⟩⟩

/-- Every slot has a story. -/
theorem exists_story (tended : AllTended capacity s trace) (index : UInt64) :
    ∃ lap phase, Story capacity index lap phase (story capacity index trace) := by
  obtain ⟨stage, here⟩ := exists_stage capacity s index
  obtain ⟨lap, phase, told, _⟩ := tended index stage here
  exact ⟨lap, phase, told⟩

/-- What happens only at one slot happens as often in the trace as in the story of the slot. -/
theorem countP_story {happens : Event Thread Element → Bool}
    (here : ∀ event ∈ trace, happens event = true → event.slot capacity = some index) :
    (story capacity index trace).countP happens = trace.countP happens := by
  rw [story, List.countP_filter]
  refine List.countP_congr fun event member => ?_
  rw [Bool.and_eq_true, beq_iff_eq]
  exact ⟨fun both => both.1, fun happened => ⟨happened, here event member happened⟩⟩

theorem slot_of_constructs {ticket : UInt64} {event : Event Thread Element}
    (happened : event.constructs ticket = true) :
    event.slot capacity = some (getSlot capacity ticket) := by
  cases event <;> simp only [Event.constructs, Bool.false_eq_true, beq_iff_eq] at happened
  rw [← happened, Event.slot]

theorem slot_of_reads {ticket : UInt64} {event : Event Thread Element}
    (happened : event.reads ticket = true) :
    event.slot capacity = some (getSlot capacity ticket) := by
  cases event <;> simp only [Event.reads, Bool.false_eq_true, beq_iff_eq] at happened
  rw [← happened, Event.slot]

/-- No ticket is used twice. -/
theorem countP_le_one (tended : AllTended capacity s trace) (ticket : UInt64) :
    trace.countP (Event.constructs ticket) ≤ 1 ∧ trace.countP (Event.reads ticket) ≤ 1 := by
  obtain ⟨lap, phase, told⟩ := exists_story tended (getSlot capacity ticket)
  obtain ⟨constructed, read, _⟩ := told.counts (rfl : getSlot capacity ticket = _)
  rw [countP_story fun _ _ => slot_of_constructs] at constructed
  rw [countP_story fun _ _ => slot_of_reads] at read
  rw [constructed, read]
  constructor <;> split <;> decide

/-! ### Who holds a ticket has claimed it -/

/-- Whose event it is. -/
def Event.thread : Event Thread Element → Option Thread
  | .called thread _ => some thread
  | .claimedHead thread _ _ => some thread
  | .claimedTail thread _ => some thread
  | .constructed thread _ _ => some thread
  | .read thread _ _ => some thread
  | .destroyed _ _ => none
  | .returned thread _ => some thread

/-- A thread has claimed a ticket of a counter. -/
def Claimed (thread : Thread) (side : Side) (ticket : Nat) (trace : List (Event Thread Element)) :
    Prop :=
  ∃ event ∈ trace, event.thread = some thread ∧ ticket ∈ event.claimed side

theorem Claimed.append {thread : Thread} {side : Side} {ticket : Nat}
    (claimed : Claimed thread side ticket trace) :
    Claimed thread side ticket (trace ++ events) := by
  obtain ⟨event, member, rest⟩ := claimed
  exact ⟨event, List.mem_append_left _ member, rest⟩

/-- The ticket an event makes use of. -/
def Event.uses : Event Thread Element → Option (Thread × Side × UInt64)
  | .constructed thread ticket _ => some (thread, .head, ticket)
  | .read thread ticket _ => some (thread, .tail, ticket)
  | _ => none

theorem uses_pushNext {thread : Thread} {ticket : UInt64} {after : AfterPush Element} :
    ∀ event ∈ (after.next thread ticket).2, event.uses = none := by
  intro event member
  obtain ⟨value, rfl⟩ := returned_of_pushNext member
  rfl

theorem uses_popNext {thread : Thread} {ticket : UInt64} {after : AfterPop Element} :
    ∀ event ∈ (after.next thread ticket).2, event.uses = none := by
  intro event member
  obtain ⟨value, rfl⟩ := returned_of_popNext member
  rfl

section Claims

variable [DecidableEq Thread] {thread : Thread} {moved : Element → Element}

/-- A thread makes use only of tickets it holds. -/
theorem holds_of_uses (step : advance capacity s thread (s.pc thread) = some (next, events)) :
    ∀ event ∈ events, ∀ user side ticket, event.uses = some (user, side, ticket) →
      user = thread ∧ (s.pc thread).Holds side ticket.toNat := by
  have unused (none : ∀ event ∈ events, event.uses = none) : ∀ event ∈ events,
      ∀ user side ticket, event.uses = some (user, side, ticket) →
        user = thread ∧ (s.pc thread).Holds side ticket.toNat := by
    intro event member user side ticket uses
    rw [none event member] at uses
    cases uses
  cases advances_of_advance step with
  | fetchHead pc => exact unused (List.forall_mem_cons.mpr ⟨rfl, uses_pushNext⟩)
  | publish pc => exact unused uses_pushNext
  | release pc => exact unused uses_popNext
  | @construct ticket write after pc =>
    refine List.forall_mem_singleton.mpr fun user side ticket' same => ?_
    cases same
    rw [pc]
    exact ⟨rfl, Holds.of_held rfl ticket.toNat_lt⟩
  | @read ticket change after pc =>
    refine List.forall_mem_singleton.mpr fun user side ticket' same => ?_
    cases same
    rw [pc]
    exact ⟨rfl, Holds.of_held (rfl : _ = some (_, _, 0 + 1)) ticket.toNat_lt⟩
  | winHead | giveUpHead | fetchTail | winTail | giveUpTail | destroy =>
    exact unused (List.forall_mem_singleton.mpr rfl)
  | _ => exact unused (List.forall_mem_nil _)

/-- A ticket that a thread holds after a step it held before, or has just claimed. -/
theorem claimed_advance (sound : Sound capacity s trace)
    (step : advance capacity s thread (s.pc thread) = some (next, events))
    (few : FewTickets (trace ++ events)) {side : Side} {ticket : Nat}
    (holds : (next.pc thread).Holds side ticket) :
    (s.pc thread).Holds side ticket ∨ Claimed thread side ticket events := by
  have same {pc : Pc Element} (pcs : next.pc thread = pc) (held : pc.held = (s.pc thread).held) :
      (s.pc thread).Holds side ticket ∨ Claimed thread side ticket events := by
    refine Or.inl ?_
    rw [pcs, Pc.Holds, held] at holds
    exact holds
  have nothing {pc : Pc Element} (pcs : next.pc thread = pc) (held : pc.held = none) :
      (s.pc thread).Holds side ticket ∨ Claimed thread side ticket events := by
    rw [pcs] at holds
    exact absurd holds (not_holds_of_none held)
  cases advances_of_advance step with
  | fetchHead pc =>
    rw [State.setPc_pc_self, holds_pushNext] at holds
    obtain ⟨_, rfl, low, high⟩ := holds
    refine Or.inr ⟨_, List.mem_cons_self, rfl, ?_⟩
    rw [Event.claimed, if_pos rfl]
    exact List.mem_range'_1.mpr ⟨low, high⟩
  | winHead pc =>
    rw [State.setPc_pc_self] at holds
    obtain ⟨_, first, count, held, low, high⟩ := holds
    cases held
    refine Or.inr ⟨_, List.mem_cons_self, rfl, ?_⟩
    rw [Event.claimed, if_pos rfl]
    exact List.mem_range'_1.mpr ⟨low, high⟩
  | fetchTail pc | winTail pc =>
    rw [State.setPc_pc_self] at holds
    obtain ⟨_, first, count, held, low, high⟩ := holds
    cases held
    refine Or.inr ⟨_, List.mem_cons_self, rfl, ?_⟩
    rw [Event.claimed, if_pos rfl, List.mem_singleton]
    omega
  | @publish i after pc =>
    obtain ⟨_, small⟩ := turn_of_window sound few.of_append
      (by rw [pc]; rfl : (s.pc thread).window = some (.head, i.toNat))
    rw [State.setPc_pc_self, holds_pushNext, toNat_add_one small] at holds
    obtain ⟨small, rfl, low, high⟩ := holds
    refine Or.inl ⟨small, _, _, by rw [pc]; rfl, low.trans' (Nat.le_succ _), ?_⟩
    omega
  | release pc => exact nothing (State.setPc_pc_self ..) (held_popNext _ _)
  | spinFree pc | spinFull pc => exact Or.inl holds
  | enterFree pc | enterFull pc | construct pc | read pc | destroy pc =>
    exact same (State.setPc_pc_self ..) (by rw [pc]; rfl)
  | _ => exact nothing (State.setPc_pc_self ..) rfl

/-- Who holds a ticket has claimed it. -/
theorem claimed_of_holds {bytes : UInt64 → Element}
    (run : Transitions.Reaches (system capacity moved) (start bytes) s trace)
    (few : FewTickets trace) {side : Side} {ticket : Nat}
    (holds : (s.pc thread).Holds side ticket) : Claimed thread side ticket trace := by
  refine run.invariant (fun s trace => FewTickets trace → ∀ thread side ticket,
    (s.pc thread).Holds side ticket → Claimed thread side ticket trace) ?_ ?_ few thread side
    ticket holds
  · exact fun _ thread side ticket holds => absurd holds (not_holds_of_none rfl)
  · intro s trace action next events run inductionHypothesis step few thread side ticket holds
    have before := inductionHypothesis few.of_append thread side ticket
    rcases system_cases step with ⟨caller, op, idle, rfl, rfl⟩ | ⟨stepper, advanced⟩
    · by_cases this : thread = caller
      · subst this
        rw [State.setPc_pc_self] at holds
        refine absurd holds (not_holds_of_none ?_)
        cases op <;> rfl
      · rw [State.setPc_pc_other _ _ _ this] at holds
        exact (before holds).append
    · by_cases this : thread = stepper
      · subst this
        rcases claimed_advance (sound_of_reaches run few.of_append) advanced few holds with
          old | ⟨event, member, rest⟩
        · exact (before old).append
        · exact ⟨event, List.mem_append_right _ member, rest⟩
      · rw [pc_advance_other advanced this] at holds
        exact (before holds).append

/-- Whoever makes use of a ticket has claimed it before. -/
theorem claimed_of_uses {bytes : UInt64 → Element}
    (run : Transitions.Reaches (system capacity moved) (start bytes) s trace)
    (few : FewTickets trace) {event : Event Thread Element}
    {before after : List (Event Thread Element)} {user : Thread} {side : Side} {ticket : UInt64}
    (split : trace = before ++ event :: after)
    (uses : event.uses = some (user, side, ticket)) :
    Claimed user side ticket.toNat before := by
  refine run.invariant (fun s trace => FewTickets trace → ∀ before after,
    trace = before ++ event :: after → Claimed user side ticket.toNat before) ?_ ?_ few before
    after split
  · intro _ before after split
    have sizes := congrArg List.length split
    simp at sizes
  · intro s trace action next events run inductionHypothesis step few before after split
    rcases split_append split with ⟨rest, same, _⟩ | ⟨first, rfl, same⟩
    · exact inductionHypothesis few.of_append before rest same
    · refine Claimed.append ?_
      have member : event ∈ events := by
        rw [same]
        exact List.mem_append_right _ List.mem_cons_self
      rcases system_cases step with ⟨caller, op, _, _, rfl⟩ | ⟨stepper, advanced⟩
      · rw [List.mem_singleton.mp member] at uses
        cases uses
      · obtain ⟨rfl, holds⟩ := holds_of_uses advanced event member user side ticket uses
        exact claimed_of_holds run few.of_append holds

end Claims

/-! ### Bulk pushes -/

/-- An event of a step that a thread takes inside an operation. -/
def Event.Inside (thread : Thread) : Event Thread Element → Prop
  | .called _ _ => False
  | .destroyed _ _ => True
  | event => event.thread = some thread

theorem Event.Inside.thread {thread : Thread} {event : Event Thread Element}
    (inside : event.Inside thread) : event.thread = none ∨ event.thread = some thread := by
  cases event with
  | called _ _ => exact absurd inside id
  | destroyed _ _ => exact Or.inl rfl
  | claimedHead _ _ _ => exact Or.inr inside
  | claimedTail _ _ => exact Or.inr inside
  | constructed _ _ _ => exact Or.inr inside
  | read _ _ _ => exact Or.inr inside
  | returned _ _ => exact Or.inr inside

/-- The constructions of elements with consecutive tickets. -/
def constructions (thread : Thread) : UInt64 → List Element → List (Event Thread Element)
  | _, [] => []
  | ticket, element :: rest =>
      .constructed thread ticket element :: constructions thread (ticket + 1) rest

/-- All a bulk push does, when `first` is the head it finds. -/
def bulkWork (thread : Thread) (first : UInt64) (elements : List Element) :
    List (Event Thread Element) :=
  .claimedHead thread first elements.length ::
    (constructions thread first elements ++ [.returned thread .unit])

/-- What a thread has still to do of a bulk push. -/
inductive Ahead (thread : Thread) : Pc Element → List (Event Thread Element) → Prop
  | done : Ahead thread .idle []
  | awaitFree (ticket : UInt64) (element : Element) (rest : List Element) :
      Ahead thread (.awaitFree ticket (fun _ => element) (rest.map fun element _ => element))
        (constructions thread ticket (element :: rest) ++ [.returned thread .unit])
  | construct (ticket : UInt64) (element : Element) (rest : List Element) :
      Ahead thread
        (.construct ticket (fun _ => element) (.bulk (rest.map fun element _ => element)))
        (constructions thread ticket (element :: rest) ++ [.returned thread .unit])
  | publish (ticket : UInt64) (rest : List Element) :
      Ahead thread (.publish ticket (.bulk (rest.map fun element _ => element)))
        (constructions thread (ticket + 1) rest ++ [.returned thread .unit])

/-- Going on with the elements that are left. -/
theorem ahead_pushNext (thread : Thread) (ticket : UInt64) (rest : List Element) :
    ∃ later, ((AfterPush.bulk (rest.map fun element _ => element)).next thread ticket).2 ++ later =
        constructions thread ticket rest ++ [.returned thread .unit] ∧
      Ahead thread ((AfterPush.bulk (rest.map fun element _ => element)).next thread ticket).1
        later := by
  cases rest with
  | nil => exact ⟨[], rfl, .done⟩
  | cons element rest => exact ⟨_, rfl, .awaitFree ticket element rest⟩

/-- The work of a bulk push is all its own. -/
theorem own_constructions (thread : Thread) (ticket : UInt64) (elements : List Element) :
    ∀ event ∈ constructions thread ticket elements ++ [.returned thread .unit],
      event.thread = some thread := by
  refine List.forall_mem_append.mpr ⟨?_, List.forall_mem_singleton.mpr rfl⟩
  induction elements generalizing ticket with
  | nil => exact List.forall_mem_nil _
  | cons element rest inductionHypothesis =>
    exact List.forall_mem_cons.mpr ⟨rfl, inductionHypothesis _⟩

theorem own_of_ahead {thread : Thread} {pc : Pc Element} {later : List (Event Thread Element)}
    (ahead : Ahead thread pc later) : ∀ event ∈ later, event.thread = some thread := by
  cases ahead with
  | done => exact List.forall_mem_nil _
  | awaitFree ticket element rest => exact own_constructions _ _ _
  | construct ticket element rest => exact own_constructions _ _ _
  | publish ticket rest => exact own_constructions _ _ _

section Bulk

variable [DecidableEq Thread] {thread : Thread} {moved : Element → Element}

/-- A step of a bulk push does the next of what is ahead. -/
theorem ahead_advance {later : List (Event Thread Element)}
    (ahead : Ahead thread (s.pc thread) later)
    (step : advance capacity s thread (s.pc thread) = some (next, events)) :
    ∃ later', events ++ later' = later ∧ Ahead thread (next.pc thread) later' := by
  cases pc : s.pc thread <;> rw [pc] at step ahead <;> cases ahead <;>
    simp only [advance] at step
  case idle => cases step
  case awaitFree ticket element rest =>
    split at step
    · cases step
      rw [State.setPc_pc_self]
      exact ⟨_, rfl, .construct ticket element rest⟩
    · cases step
      rw [pc]
      exact ⟨_, rfl, .awaitFree ticket element rest⟩
  case construct ticket element rest =>
    cases step
    rw [State.setPc_pc_self]
    exact ⟨_, rfl, .publish ticket rest⟩
  case publish ticket rest =>
    cases step
    rw [State.setPc_pc_self]
    exact ahead_pushNext thread (ticket + 1) rest

/-- The events of a step are those of the thread that takes it, and no calls. -/
theorem inside_of_advance (step : advance capacity s thread (s.pc thread) = some (next, events)) :
    ∀ event ∈ events, event.Inside thread := by
  have pushed (ticket : UInt64) (after : AfterPush Element) :
      ∀ event ∈ (after.next thread ticket).2, event.Inside thread := by
    intro event member
    obtain ⟨value, rfl⟩ := returned_of_pushNext member
    rfl
  cases advances_of_advance step with
  | fetchHead => exact List.forall_mem_cons.mpr ⟨rfl, pushed _ _⟩
  | publish => exact pushed _ _
  | release =>
    intro event member
    obtain ⟨value, rfl⟩ := returned_of_popNext member
    rfl
  | destroy => exact List.forall_mem_singleton.mpr trivial
  | winHead | giveUpHead | construct | fetchTail | winTail | giveUpTail | read =>
    exact List.forall_mem_singleton.mpr rfl
  | _ => exact List.forall_mem_nil _

/-- What a thread does. -/
def doings (thread : Thread) (trace : List (Event Thread Element)) :
    List (Event Thread Element) :=
  trace.filter fun event => event.thread == some thread

theorem doings_append (trace events : List (Event Thread Element)) :
    doings thread (trace ++ events) = doings thread trace ++ doings thread events :=
  List.filter_append ..

theorem doings_other {other : Thread} (different : thread ≠ other)
    (step : advance capacity s other (s.pc other) = some (next, events)) :
    doings thread events = [] := by
  refine List.filter_eq_nil_iff.mpr fun event member => ?_
  rw [beq_iff_eq]
  rcases (inside_of_advance step event member).thread with same | same <;> rw [same]
  · exact nofun
  · exact fun equal => different (Option.some.inj equal).symm

theorem doings_own (own : ∀ event ∈ events, event.thread = some thread) :
    doings thread events = events :=
  List.filter_eq_self.mpr fun event member => beq_iff_eq.mpr (own event member)

/-- A thread is inside a bulk push, or has returned from it: what it has done since the call, and
what it has still to do, is the work of a bulk push. -/
def Bulk (thread : Thread) (elements : List Element) (pc : Pc Element)
    (work : List (Event Thread Element)) : Prop :=
  (pc = bulkPush elements ∧ work = []) ∨
    ∃ first later, Ahead thread pc later ∧ work ++ later = bulkWork thread first elements

theorem bulk_advance {elements : List Element} {work : List (Event Thread Element)}
    (bulk : Bulk thread elements (s.pc thread) work)
    (step : advance capacity s thread (s.pc thread) = some (next, events)) :
    Bulk thread elements (next.pc thread) (work ++ doings thread events) := by
  rcases bulk with ⟨pc, rfl⟩ | ⟨first, later, ahead, whole⟩
  · rw [pc, bulkPush] at step
    simp only [advance] at step
    cases step
    obtain ⟨later, whole, ahead⟩ := ahead_pushNext thread s.head elements
    refine Or.inr ⟨s.head, later, ?_, ?_⟩
    · rw [State.setPc_pc_self]
      exact ahead
    · rw [List.nil_append, doings_own, List.cons_append, whole, List.length_map, bulkWork]
      refine List.forall_mem_cons.mpr ⟨rfl, fun event member => ?_⟩
      refine own_constructions thread s.head elements event ?_
      rw [← whole]
      exact List.mem_append_left _ member
  · obtain ⟨later', rfl, ahead'⟩ := ahead_advance ahead step
    refine Or.inr ⟨first, later', ahead', ?_⟩
    rw [doings_own, List.append_assoc, whole]
    exact fun event member => own_of_ahead ahead event (List.mem_append_left _ member)

/-- Since its last call, a bulk push, a thread has done the work of it. -/
theorem bulk_of_reaches {bytes : UInt64 → Element}
    (run : Transitions.Reaches (system capacity moved) (start bytes) s trace)
    {before after : List (Event Thread Element)} {elements : List Element}
    (split : trace = before ++ .called thread (.bulkPush elements) :: after)
    (last : ∀ op, .called thread op ∉ after) :
    Bulk thread elements (s.pc thread) (doings thread after) := by
  refine run.invariant (fun s trace => ∀ before after,
    trace = before ++ .called thread (.bulkPush elements) :: after →
      (∀ op, .called thread op ∉ after) → Bulk thread elements (s.pc thread) (doings thread after))
    ?_ ?_ before after split last
  · intro before after split
    have sizes := congrArg List.length split
    simp at sizes
  · intro s trace action next events run inductionHypothesis step before after split last
    rcases system_cases step with ⟨caller, op, idle, rfl, rfl⟩ | ⟨stepper, advanced⟩
    · rcases split_snoc split with ⟨rfl, same, rfl⟩ | ⟨rest, same, rfl⟩
      · cases same
        refine Or.inl ⟨?_, rfl⟩
        rw [State.setPc_pc_self]
        rfl
      · have different : thread ≠ caller := by
          rintro rfl
          exact last op (List.mem_append_right _ List.mem_cons_self)
        have nothing : doings thread [Event.called caller op] = [] :=
          List.filter_eq_nil_iff.mpr (List.forall_mem_singleton.mpr fun same =>
            different (Option.some.inj (beq_iff_eq.mp same)).symm)
        rw [State.setPc_pc_other _ _ _ different, doings_append, nothing, List.append_nil]
        exact inductionHypothesis before rest same
          fun op member => last op (List.mem_append_left _ member)
    · rcases split_append split with ⟨rest, same, rfl⟩ | ⟨first, rfl, rfl⟩
      · have bulk := inductionHypothesis before rest same
          fun op member => last op (List.mem_append_left _ member)
        rw [doings_append]
        by_cases this : thread = stepper
        · subst this
          exact bulk_advance bulk advanced
        · rw [pc_advance_other advanced this, doings_other this advanced, List.append_nil]
          exact bulk
      · have inside := inside_of_advance advanced (.called thread (.bulkPush elements))
          (List.mem_append_right _ List.mem_cons_self)
        exact absurd inside id

end Bulk

/-! ### Exactly once -/

/-- The queue has delivered every element once and in ticket order so far. -/
structure ExactlyOnce [DecidableEq Thread] (capacity : Capacity) (s : State Thread Element)
    (trace : List (Event Thread Element)) : Prop where
  /-- The tickets of each counter are claimed in order, each by one thread. -/
  tickets : ∀ side, claims side trace = List.range (s.count side)
  /-- What is read with a ticket of the tail was constructed with the same ticket of the head. -/
  delivered : ∀ before consumer ticket element after,
    trace = before ++ .read consumer ticket element :: after →
    Claimed consumer .tail ticket.toNat before ∧ ∃ producer,
      Claimed producer .head ticket.toNat before ∧ .constructed producer ticket element ∈ before
  /-- No ticket is used twice, by producers or by consumers. -/
  once : ∀ ticket, trace.countP (Event.constructs ticket) ≤ 1 ∧
    trace.countP (Event.reads ticket) ≤ 1
  /-- An element is read before the next one is constructed in its slot. -/
  kept : ∀ before producer ticket element middle producer' ticket' element' after,
    trace = before ++ .constructed producer ticket element ::
      (middle ++ .constructed producer' ticket' element' :: after) →
    getSlot capacity ticket = getSlot capacity ticket' →
    ∃ consumer, .read consumer ticket element ∈ middle
  /-- A bulk push constructs its elements in order, with consecutive tickets. -/
  bulk : ∀ before thread elements after,
    trace = before ++ .called thread (.bulkPush elements) :: after →
    (∀ op, .called thread op ∉ after) →
    ∃ first, doings thread after <+: bulkWork thread first elements ∧
      (s.pc thread = .idle → doings thread after = bulkWork thread first elements)

section Main

variable [DecidableEq Thread] {moved : Element → Element} {bytes : UInt64 → Element}

theorem delivered_of_reaches
    (run : Transitions.Reaches (system capacity moved) (start bytes) s trace)
    (few : FewTickets trace) {before after : List (Event Thread Element)} {consumer : Thread}
    {ticket : UInt64} {element : Element}
    (split : trace = before ++ .read consumer ticket element :: after) :
    Claimed consumer .tail ticket.toNat before ∧ ∃ producer,
      Claimed producer .head ticket.toNat before ∧
      .constructed producer ticket element ∈ before := by
  refine ⟨claimed_of_uses run few split rfl, ?_⟩
  obtain ⟨lap, phase, told⟩ := exists_story (tended_of_reaches run few) (getSlot capacity ticket)
  rw [split, story_split rfl] at told
  obtain ⟨producer, constructed⟩ := told.constructed_of_read rfl
  have member := mem_of_mem_story constructed
  obtain ⟨first, rest, same⟩ := List.append_of_mem member
  refine ⟨producer, ?_, member⟩
  -- the producer had claimed the ticket before it constructed
  rw [same, List.append_assoc] at split
  rw [same]
  exact (claimed_of_uses run few split rfl).append

theorem kept_of_reaches (run : Transitions.Reaches (system capacity moved) (start bytes) s trace)
    (few : FewTickets trace) {before middle after : List (Event Thread Element)}
    {producer producer' : Thread} {ticket ticket' : UInt64} {element element' : Element}
    (split : trace = before ++ .constructed producer ticket element ::
      (middle ++ .constructed producer' ticket' element' :: after))
    (place : getSlot capacity ticket = getSlot capacity ticket') :
    ∃ consumer, .read consumer ticket element ∈ middle := by
  obtain ⟨lap, phase, told⟩ := exists_story (tended_of_reaches run few) (getSlot capacity ticket)
  rw [split, story_split rfl, story_split (by rw [place]; rfl)] at told
  obtain ⟨consumer, read⟩ := told.read_between rfl
  exact ⟨consumer, mem_of_mem_story read⟩

/-- In every run with fewer than `2 ^ 63` tickets, under any schedule of any number of threads, the
queue delivers exactly once and in ticket order. -/
theorem exactlyOnce_of_reaches
    (run : Transitions.Reaches (system capacity moved) (start bytes) s trace)
    (few : FewTickets trace) : ExactlyOnce capacity s trace where
  tickets := (sound_of_reaches run few).claimed
  delivered _ _ _ _ _ split := delivered_of_reaches run few split
  once := countP_le_one (tended_of_reaches run few)
  kept _ _ _ _ _ _ _ _ _ split place := kept_of_reaches run few split place
  bulk before thread elements after split last := by
    rcases bulk_of_reaches run split last with ⟨pc, work⟩ | ⟨first, later, ahead, whole⟩
    · refine ⟨s.head, ?_, fun idle => ?_⟩
      · rw [work]
        exact List.nil_prefix
      · rw [pc] at idle
        cases idle
    · refine ⟨first, ⟨later, whole⟩, fun idle => ?_⟩
      rw [idle] at ahead
      cases ahead
      rw [← whole, List.append_nil]

end Main

section Example

/-- A queue with one slot. -/
def oneSlot : Capacity := ⟨1, 0, by decide, rfl⟩

/-- One thread pushes two elements at once, which do not fit, while another pops them. -/
def exchange : List (Action Bool Nat) :=
  [.call false (.bulkPush [7, 8]), .call true .pop, .step true] ++
    [.step false, .step false, .step false, .step false, .step false] ++
    [.step true, .step true, .step true, .step true] ++
    [.step false, .step false, .step false] ++
    [.call true .tryPop, .step true, .step true, .step true, .step true, .step true, .step true]

def exchanged : List (Event Bool Nat) :=
  [.called false (.bulkPush [7, 8]), .called true .pop, .claimedTail true 0,
    .claimedHead false 0 2, .constructed false 0 7, .read true 0 7, .destroyed 0 (some 0),
    .returned true .unit, .constructed false 1 8, .returned false .unit, .called true .tryPop,
    .claimedTail true 1, .read true 1 8, .destroyed 0 (some 1), .returned true (.bool true)]

theorem exactlyOnce_exchange : ∃ s,
    Transitions.execute (system oneSlot id) (start fun _ => 0) exchange = some (s, exchanged) ∧
    ExactlyOnce oneSlot s exchanged := by
  have traced : (Transitions.execute (system oneSlot id) (start fun _ => 0) exchange).map
      (fun reached => reached.2) = some exchanged := rfl
  obtain ⟨⟨s, _⟩, executed, rfl⟩ := Option.map_eq_some_iff.mp traced
  refine ⟨s, executed, exactlyOnce_of_reaches (Transitions.reaches_of_execute executed) ?_⟩
  intro side
  cases side <;> decide

end Example

end MPMCQueue

end Sheep
