/-
This file tells the story of each slot: the events at a slot are, over and over,
the construction of an element, its reading and its destruction, once for each
lap of the tickets over the ring. What the turn of the slot is and how far a
thread has come inside its window say where in its story the slot is.
-/

import Sheep.QueueMoves

namespace Sheep

open Turnstile

namespace MPMCQueue

variable {Thread Element : Type} {capacity : Capacity}

/-! ### Stories -/

/-- The slot at which something happens to an element. -/
def Event.slot (capacity : Capacity) : Event Thread Element → Option UInt64
  | .constructed _ ticket _ => some (getSlot capacity ticket)
  | .read _ ticket _ => some (getSlot capacity ticket)
  | .destroyed index _ => some index
  | _ => none

/-- The events at a slot. -/
def story (capacity : Capacity) (index : UInt64) (trace : List (Event Thread Element)) :
    List (Event Thread Element) :=
  trace.filter fun event => event.slot capacity == some index

theorem story_append (index : UInt64) (trace events : List (Event Thread Element)) :
    story capacity index (trace ++ events) =
      story capacity index trace ++ story capacity index events :=
  List.filter_append ..

theorem story_self {index : UInt64} {event : Event Thread Element}
    (here : event.slot capacity = some index) : story capacity index [event] = [event] := by
  simp [story, here]

theorem story_other {index other : UInt64} {event : Event Thread Element}
    (here : event.slot capacity = some index) (different : other ≠ index) :
    story capacity other [event] = [] := by
  simp [story, here, Ne.symm different]

/-- What lives in a slot: nothing, an element, or what a consumer has left of one. -/
inductive Phase (Element : Type)
  | raw
  | full (ticket : UInt64) (element : Element)
  | used (ticket : UInt64)

/-- The stories of a slot, with the lap they are in and what lives in the slot at their end. -/
inductive Story (capacity : Capacity) (index : UInt64) :
    Nat → Phase Element → List (Event Thread Element) → Prop
  | fresh : Story capacity index 0 .raw []
  | construct {lap : Nat} {events : List (Event Thread Element)} {thread : Thread}
      {ticket : UInt64} {element : Element} :
      Story capacity index lap .raw events → getSlot capacity ticket = index →
      ticket.toNat / capacity.value.toNat = lap →
      Story capacity index lap (.full ticket element)
        (events ++ [.constructed thread ticket element])
  | read {lap : Nat} {events : List (Event Thread Element)} {thread : Thread}
      {ticket : UInt64} {element : Element} :
      Story capacity index lap (.full ticket element) events →
      Story capacity index lap (.used ticket) (events ++ [.read thread ticket element])
  | destroy {lap : Nat} {events : List (Event Thread Element)} {ticket : UInt64} :
      Story capacity index lap (.used ticket) events →
      Story capacity index (lap + 1) .raw (events ++ [.destroyed index (some ticket)])

/-- An element lives in the slot of its ticket, in the lap of its ticket. -/
theorem Story.ticket_of_full {index : UInt64} {lap : Nat} {ticket : UInt64} {element : Element}
    {events : List (Event Thread Element)}
    (told : Story capacity index lap (.full ticket element) events) :
    getSlot capacity ticket = index ∧ ticket.toNat / capacity.value.toNat = lap := by
  cases told with
  | construct _ slot turn => exact ⟨slot, turn⟩

theorem Story.ticket_of_used {index : UInt64} {lap : Nat} {ticket : UInt64}
    {events : List (Event Thread Element)}
    (told : Story capacity index lap (.used ticket : Phase Element) events) :
    getSlot capacity ticket = index ∧ ticket.toNat / capacity.value.toNat = lap := by
  cases told with
  | read told => exact told.ticket_of_full

/-! ### Slots in their stories -/

/-- How far a thread has come inside a window; also the stage of a slot that nobody is inside. -/
inductive Stage
  | outside
  | constructed
  | used
  | destroyed
deriving DecidableEq, Repr

/-- The slot is where the story says: its turn, the object in it, and the bytes of an element. -/
def Fits (slot : Slot Element) (lap : Nat) : Stage → Phase Element → Prop
  | .outside, .raw => slot.turn.toNat = 2 * lap ∧ slot.object = none
  | .outside, .full ticket element =>
      slot.turn.toNat = 2 * lap + 1 ∧ slot.object = some ticket ∧ slot.data = element
  | .constructed, .full ticket element =>
      slot.turn.toNat = 2 * lap ∧ slot.object = some ticket ∧ slot.data = element
  | .used, .used ticket => slot.turn.toNat = 2 * lap + 1 ∧ slot.object = some ticket
  | .destroyed, .raw => slot.turn.toNat + 1 = 2 * lap ∧ slot.object = none
  | _, _ => False

/-- The events of a slot are one of its stories, and the slot fits it. -/
def Tended (capacity : Capacity) (index : UInt64) (slot : Slot Element) (stage : Stage)
    (events : List (Event Thread Element)) : Prop :=
  ∃ lap phase, Story capacity index lap phase events ∧ Fits slot lap stage phase

/-- The ticket with which a thread is inside a window, and how far it has come. -/
def Pc.tends : Pc Element → Option (UInt64 × Stage)
  | .construct ticket _ _ => some (ticket, .outside)
  | .publish ticket _ => some (ticket, .constructed)
  | .read ticket _ _ => some (ticket, .outside)
  | .destroy ticket _ => some (ticket, .used)
  | .release ticket _ => some (ticket, .destroyed)
  | _ => none

theorem window_of_tends {pc : Pc Element} {ticket : UInt64} {stage : Stage}
    (tends : pc.tends = some (ticket, stage)) : ∃ side, pc.window = some (side, ticket.toNat) := by
  cases pc <;> cases tends <;> exact ⟨_, rfl⟩

/-- The stage of a slot: that of the thread inside its window, if there is one. -/
def StageAt (capacity : Capacity) (s : State Thread Element) (index : UInt64) (stage : Stage) :
    Prop :=
  (∃ thread ticket, (s.pc thread).tends = some (ticket, stage) ∧
    getSlot capacity ticket = index) ∨
  stage = .outside ∧ ∀ thread ticket stage', (s.pc thread).tends = some (ticket, stage') →
    getSlot capacity ticket ≠ index

/-- Every slot fits its story. -/
def AllTended (capacity : Capacity) (s : State Thread Element)
    (trace : List (Event Thread Element)) : Prop :=
  ∀ index stage, StageAt capacity s index stage →
    Tended capacity index (s.slots index) stage (story capacity index trace)

variable {s next : State Thread Element} {thread other : Thread} {index : UInt64}
  {trace events : List (Event Thread Element)}

/-- At most one thread is inside the window of a slot. -/
theorem alone_of_tends (orderly : Orderly (s.board capacity)) {i j : UInt64}
    {stage stage' : Stage} (first : (s.pc thread).tends = some (i, stage))
    (second : (s.pc other).tends = some (j, stage'))
    (slot : getSlot capacity i = getSlot capacity j) : thread = other := by
  obtain ⟨side, inside⟩ := window_of_tends first
  obtain ⟨side', inside'⟩ := window_of_tends second
  refine (orderly.alone ⟨side, _, inside, rfl⟩ ⟨side', _, inside', rfl⟩ ?_).1
  rw [pass_toNat, pass_toNat, slot]

theorem tended_start (bytes : UInt64 → Element) :
    AllTended capacity (start bytes : State Thread Element) [] := by
  rintro index stage (⟨thread, ticket, tends, _⟩ | ⟨rfl, _⟩)
  · cases tends
  · exact ⟨0, .raw, .fresh, rfl, rfl⟩

/-- A step outside all windows that touches no slot. -/
theorem tended_quiet (thread : Thread) (tended : AllTended capacity s trace)
    (slots : next.slots = s.slots)
    (others : ∀ other, other ≠ thread → next.pc other = s.pc other)
    (outside : (s.pc thread).tends = none) (outside' : (next.pc thread).tends = none)
    (nothing : ∀ index, story capacity index events = []) :
    AllTended capacity next (trace ++ events) := by
  have same (other : Thread) : (next.pc other).tends = (s.pc other).tends := by
    by_cases this : other = thread
    · rw [this, outside, outside']
    · rw [others other this]
  intro index stage at_
  rw [slots, story_append, nothing, List.append_nil]
  refine tended index stage ?_
  simpa only [StageAt, same] using at_

/-- The stage a thread has come to, `outside` where it is in no window. -/
def Pc.stage (pc : Pc Element) : Stage :=
  match pc.tends with
  | some (_, stage) => stage
  | none => .outside

theorem stage_of_tends {pc : Pc Element} {ticket : UInt64} {stage : Stage}
    (tends : pc.tends = some (ticket, stage)) : pc.stage = stage := by
  rw [Pc.stage, tends]

theorem stage_of_none {pc : Pc Element} (tends : pc.tends = none) : pc.stage = .outside := by
  rw [Pc.stage, tends]

/-- A step of a thread in the window of one slot, into it or out of it. -/
theorem tended_inside (tended : AllTended capacity s trace) (orderly : Orderly (s.board capacity))
    (orderly' : Orderly (next.board capacity))
    (others : ∀ other, other ≠ thread → next.pc other = s.pc other) (index : UInt64)
    (here : ∀ ticket stage, (s.pc thread).tends = some (ticket, stage) →
      getSlot capacity ticket = index)
    (there : ∀ ticket stage, (next.pc thread).tends = some (ticket, stage) →
      getSlot capacity ticket = index)
    (involved : (s.pc thread).tends ≠ none ∨ (next.pc thread).tends ≠ none)
    (elsewhere : ∀ other, other ≠ index → next.slots other = s.slots other ∧
      story capacity other events = [])
    (kept : Tended capacity index (s.slots index) (s.pc thread).stage
        (story capacity index trace) →
      Tended capacity index (next.slots index) (next.pc thread).stage
        (story capacity index (trace ++ events))) :
    AllTended capacity next (trace ++ events) := by
  intro index' stage at_
  by_cases this : index' = index
  · subst this
    -- before and after the step the thread alone decides the stage of its slot
    have before : StageAt capacity s index' (s.pc thread).stage := by
      cases tends : (s.pc thread).tends with
      | some given =>
        obtain ⟨ticket, stage⟩ := given
        rw [stage_of_tends tends]
        exact Or.inl ⟨thread, ticket, tends, here ticket stage tends⟩
      | none =>
        rw [stage_of_none tends]
        refine Or.inr ⟨rfl, fun other ticket stage' inside slot => ?_⟩
        have different : other ≠ thread := by
          rintro rfl
          rw [tends] at inside
          cases inside
        obtain ⟨⟨ticket', stage''⟩, inside'⟩ :=
          Option.ne_none_iff_exists'.mp (involved.resolve_left fun some => some tends)
        rw [← others other different] at inside
        refine different (alone_of_tends orderly' inside inside' ?_)
        rw [slot, there ticket' stage'' inside']
    have after : stage = (next.pc thread).stage := by
      rcases at_ with ⟨other, ticket, inside, slot⟩ | ⟨rfl, nobody⟩
      · by_cases same : other = thread
        · subst same
          exact (stage_of_tends inside).symm
        · exfalso
          cases tends : (next.pc thread).tends with
          | some given =>
            obtain ⟨ticket', stage'⟩ := given
            refine same (alone_of_tends orderly' inside tends ?_)
            rw [slot, there ticket' stage' tends]
          | none =>
            obtain ⟨⟨ticket', stage'⟩, inside'⟩ :=
              Option.ne_none_iff_exists'.mp (involved.resolve_right fun some => some tends)
            rw [others other same] at inside
            refine same (alone_of_tends orderly inside inside' ?_)
            rw [slot, here ticket' stage' inside']
      · cases tends : (next.pc thread).tends with
        | some given =>
          obtain ⟨ticket', stage'⟩ := given
          exact absurd (there ticket' stage' tends) (nobody thread ticket' stage' tends)
        | none => exact (stage_of_none tends).symm
    rw [after]
    exact kept (tended index' _ before)
  · obtain ⟨slot, nothing⟩ := elsewhere index' this
    rw [slot, story_append, nothing, List.append_nil]
    refine tended index' stage ?_
    rcases at_ with ⟨other, ticket, inside, place⟩ | ⟨rfl, nobody⟩
    · have different : other ≠ thread := by
        rintro rfl
        exact this (place.symm.trans (there ticket stage inside))
      rw [others other different] at inside
      exact Or.inl ⟨other, ticket, inside, place⟩
    · refine Or.inr ⟨rfl, fun other ticket stage' inside place => ?_⟩
      by_cases same : other = thread
      · subst same
        exact this (place.symm.trans (here ticket stage' inside))
      · rw [← others other same] at inside
        exact nobody other ticket stage' inside place

/-! ### What happens inside a window -/

section Window

variable {slot : Slot Element} {ticket : UInt64}

/-- At an even turn a slot outside windows is empty. -/
theorem tended_construct (thread : Thread) (write : Element → Element)
    (tended : Tended capacity index slot .outside events) (place : getSlot capacity ticket = index)
    (turn : slot.turn.toNat = 2 * (ticket.toNat / capacity.value.toNat)) :
    slot.object = none ∧ Tended capacity index (slot.construct ticket write) .constructed
      (events ++ [.constructed thread ticket (write slot.data)]) := by
  obtain ⟨lap, phase, told, fits⟩ := tended
  cases phase with
  | raw =>
    obtain ⟨even, none⟩ := fits
    have sameLap : ticket.toNat / capacity.value.toNat = lap := by omega
    refine ⟨none, lap, .full ticket (write slot.data), .construct told place sameLap, even, rfl,
      rfl⟩
  | full other element =>
    obtain ⟨odd, _⟩ := fits
    omega
  | used other => exact absurd fits id

/-- At an odd turn a slot outside windows holds the element of its ticket. -/
theorem tended_read (thread : Thread) (change : Element → Element)
    (tended : Tended capacity index slot .outside events) (place : getSlot capacity ticket = index)
    (turn : slot.turn.toNat = 2 * (ticket.toNat / capacity.value.toNat) + 1) :
    slot.object = some ticket ∧ Tended capacity index (slot.use change) .used
      (events ++ [.read thread ticket slot.data]) := by
  obtain ⟨lap, phase, told, fits⟩ := tended
  cases phase with
  | raw =>
    obtain ⟨even, none⟩ := fits
    omega
  | full other element =>
    obtain ⟨odd, lives, data⟩ := fits
    obtain ⟨place', lap'⟩ := told.ticket_of_full
    have same : other = ticket := ticket_ext capacity (place'.trans place.symm) (by omega)
    subst same
    subst data
    exact ⟨lives, lap, .used other, .read told, odd, lives⟩
  | used other => exact absurd fits id

theorem tended_destroy (tended : Tended capacity index slot .used events)
    (place : getSlot capacity ticket = index)
    (turn : slot.turn.toNat = 2 * (ticket.toNat / capacity.value.toNat) + 1) :
    slot.object = some ticket ∧ Tended capacity index slot.destroy .destroyed
      (events ++ [.destroyed index slot.object]) := by
  obtain ⟨lap, phase, told, fits⟩ := tended
  cases phase with
  | raw => exact absurd fits id
  | full other element => exact absurd fits id
  | used other =>
    obtain ⟨odd, lives⟩ := fits
    obtain ⟨place', lap'⟩ := told.ticket_of_used
    have same : other = ticket := ticket_ext capacity (place'.trans place.symm) (by omega)
    subst same
    rw [lives]
    refine ⟨rfl, lap + 1, .raw, .destroy told, ?_, rfl⟩
    show slot.turn.toNat + 1 = 2 * (lap + 1)
    omega

theorem tended_publish {stored : UInt64}
    (tended : Tended capacity index slot .constructed events)
    (turn : stored.toNat = slot.turn.toNat + 1) :
    Tended capacity index (slot.setTurn stored) .outside events := by
  obtain ⟨lap, phase, told, fits⟩ := tended
  cases phase with
  | raw => exact absurd fits id
  | full other element =>
    obtain ⟨even, lives, data⟩ := fits
    exact ⟨lap, .full other element, told, by rw [Slot.setTurn, turn, even], lives, data⟩
  | used other => exact absurd fits id

theorem tended_release {stored : UInt64}
    (tended : Tended capacity index slot .destroyed events)
    (turn : stored.toNat = slot.turn.toNat + 1) :
    Tended capacity index (slot.setTurn stored) .outside events := by
  obtain ⟨lap, phase, told, fits⟩ := tended
  cases phase with
  | raw =>
    obtain ⟨odd, none⟩ := fits
    exact ⟨lap, .raw, told, by rw [Slot.setTurn, turn, odd], none⟩
  | full other element => exact absurd fits id
  | used other => exact absurd fits id

end Window

/-! ### Stories of runs -/

theorem story_pushNext (ticket : UInt64) (after : AfterPush Element) :
    story capacity index (after.next thread ticket).2 = [] := by
  cases after with
  | bulk rest => cases rest <;> rfl
  | returnTrue => rfl

theorem story_popNext (ticket : UInt64) (after : AfterPop Element) :
    story capacity index (after.next thread ticket).2 = [] := by
  cases after <;> rfl

theorem tends_pushNext (ticket : UInt64) (after : AfterPush Element) :
    ((after.next thread ticket).1).tends = none := by
  cases after with
  | bulk rest => cases rest <;> rfl
  | returnTrue => rfl

theorem tends_popNext (ticket : UInt64) (after : AfterPop Element) :
    ((after.next thread ticket).1).tends = none := by
  cases after <;> rfl

/-- Inside a window the turn is the one of the ticket, which is small. -/
theorem turn_of_window (sound : Sound capacity s trace) (few : FewTickets trace) {side : Side}
    {ticket : UInt64} (window : (s.pc thread).window = some (side, ticket.toNat)) :
    (s.slots (getSlot capacity ticket)).turn.toNat = (pass capacity side ticket.toNat).turn ∧
      ticket.toNat + 1 < 2 ^ 63 := by
  have inside : (s.board capacity).inside thread (pass capacity side ticket.toNat) :=
    ⟨side, ticket.toNat, window, rfl⟩
  constructor
  · rw [← sound.orderly.inside_good thread _ inside, pass_toNat]
    rfl
  · obtain ⟨side', ticket', holds, same⟩ := sound.orderly.inside_held thread _ inside
    obtain ⟨rfl, rfl⟩ := pass_injective ticket.toNat_lt holds.1 same
    have claimed := lt_count_of_holds sound.orderly holds
    have bounded := sound.count_lt few side
    omega

variable [DecidableEq Thread] {moved : Element → Element}

/-- A step with an event at the slot whose window the thread is in. -/
theorem tended_touch {pc : Pc Element} {ticket : UInt64} {stage stage' : Stage}
    {slot : Slot Element} {events : List (Event Thread Element)}
    (tended : AllTended capacity s trace) (sound : Sound capacity s trace)
    (sound' : Sound capacity
      ((s.setSlot (getSlot capacity ticket) slot).setPc thread pc) (trace ++ events))
    (here : (s.pc thread).tends = some (ticket, stage))
    (there : pc.tends = some (ticket, stage') ∨ pc.tends = none ∧ stage' = .outside)
    (elsewhere : ∀ other, other ≠ getSlot capacity ticket → story capacity other events = [])
    (kept : Tended capacity (getSlot capacity ticket) (s.slots (getSlot capacity ticket)) stage
        (story capacity (getSlot capacity ticket) trace) →
      Tended capacity (getSlot capacity ticket) slot stage'
        (story capacity (getSlot capacity ticket) (trace ++ events))) :
    AllTended capacity ((s.setSlot (getSlot capacity ticket) slot).setPc thread pc)
      (trace ++ events) := by
  refine tended_inside tended sound.orderly sound'.orderly
    (fun other => State.setPc_pc_other _ thread pc) (getSlot capacity ticket)
    (fun ticket' stage'' same => ?_) (fun ticket' stage'' same => ?_)
    (Or.inl (by rw [here]; exact Option.some_ne_none _))
    (fun other different => ⟨State.setSlot_slots_other _ _ _ different, elsewhere other different⟩)
    ?_
  · rw [here] at same
    cases same
    rfl
  · rw [State.setPc_pc_self] at same
    rcases there with there | ⟨there, _⟩
    · rw [there] at same
      cases same
      rfl
    · rw [there] at same
      cases same
  · have after : pc.stage = stage' := by
      rcases there with there | ⟨there, rfl⟩
      · exact stage_of_tends there
      · exact stage_of_none there
    rw [stage_of_tends here, State.setPc_pc_self, after, State.setPc_slots,
      State.setSlot_slots_self]
    exact kept

/-- A step into a window. -/
theorem tended_enter {pc : Pc Element} {ticket : UInt64} (tended : AllTended capacity s trace)
    (sound : Sound capacity s trace) (sound' : Sound capacity next (trace ++ events))
    (slots : next.slots = s.slots) (pcs : next.pc = (s.setPc thread pc).pc)
    (outside : (s.pc thread).tends = none) (enters : pc.tends = some (ticket, .outside))
    (nothing : ∀ index, story capacity index events = []) :
    AllTended capacity next (trace ++ events) := by
  have self : next.pc thread = pc := by rw [pcs, State.setPc_pc_self]
  refine tended_inside tended sound.orderly sound'.orderly
    (fun other different => by rw [pcs, State.setPc_pc_other _ _ _ different])
    (getSlot capacity ticket) (fun ticket' stage same => ?_) (fun ticket' stage same => ?_)
    (Or.inr (by rw [self, enters]; exact Option.some_ne_none _))
    (fun other _ => ⟨by rw [slots], nothing other⟩) ?_
  · rw [outside] at same
    cases same
  · rw [self, enters] at same
    cases same
    rfl
  · rw [stage_of_none outside, self, stage_of_tends enters, slots, story_append, nothing,
      List.append_nil]
    exact id

/-- Every step inside an operation keeps all slots in their stories. -/
theorem tended_advance (tended : AllTended capacity s trace) (sound : Sound capacity s trace)
    (sound' : Sound capacity next (trace ++ events)) (few : FewTickets (trace ++ events))
    (step : advance capacity s thread (s.pc thread) = some (next, events)) :
    AllTended capacity next (trace ++ events) := by
  have quiet {pc : Pc Element} (slots : next.slots = s.slots)
      (pcs : next.pc = (s.setPc thread pc).pc) (outside : (s.pc thread).tends = none)
      (outside' : pc.tends = none) (nothing : ∀ index, story capacity index events = []) :
      AllTended capacity next (trace ++ events) :=
    tended_quiet thread tended slots
      (fun other different => by rw [pcs, State.setPc_pc_other _ _ _ different]) outside
      (by rw [pcs, State.setPc_pc_self, outside']) nothing
  cases advances_of_advance step with
  | fetchHead pc =>
    exact quiet rfl rfl (by rw [pc]; rfl) (tends_pushNext _ _) fun index => story_pushNext _ _
  | enterFree pc | enterFull pc | winHead pc | winTail pc =>
    exact tended_enter tended sound sound' rfl rfl (by rw [pc]; rfl) rfl fun _ => rfl
  | spinFree pc | spinFull pc =>
    rw [List.append_nil]
    exact tended
  | @construct ticket write after pc =>
    obtain ⟨turn, _⟩ := turn_of_window sound few.of_append
      (by rw [pc]; rfl : (s.pc thread).window = some (.head, ticket.toNat))
    refine tended_touch tended sound sound' (by rw [pc]; rfl) (Or.inl rfl)
      (fun other => story_other rfl) fun here => ?_
    rw [story_append, story_self rfl]
    exact (tended_construct thread write here rfl turn).2
  | @publish ticket after pc =>
    obtain ⟨turn, small⟩ := turn_of_window sound few.of_append
      (by rw [pc]; rfl : (s.pc thread).window = some (.head, ticket.toNat))
    refine tended_touch tended sound sound' (by rw [pc]; rfl)
      (Or.inr ⟨tends_pushNext _ _, rfl⟩) (fun other _ => story_pushNext _ _) fun here => ?_
    rw [story_append, story_pushNext, List.append_nil]
    refine tended_publish here ?_
    rw [toNat_fullTurn capacity (by omega), turn, turn_pass_head]
  | @read ticket change after pc =>
    obtain ⟨turn, _⟩ := turn_of_window sound few.of_append
      (by rw [pc]; rfl : (s.pc thread).window = some (.tail, ticket.toNat))
    refine tended_touch tended sound sound' (by rw [pc]; rfl) (Or.inl rfl)
      (fun other => story_other rfl) fun here => ?_
    rw [story_append, story_self rfl]
    exact (tended_read thread change here rfl turn).2
  | @destroy ticket after pc =>
    obtain ⟨turn, _⟩ := turn_of_window sound few.of_append
      (by rw [pc]; rfl : (s.pc thread).window = some (.tail, ticket.toNat))
    refine tended_touch tended sound sound' (by rw [pc]; rfl) (Or.inl rfl)
      (fun other => story_other rfl) fun here => ?_
    rw [story_append, story_self rfl]
    exact (tended_destroy here rfl turn).2
  | @release ticket after pc =>
    obtain ⟨turn, small⟩ := turn_of_window sound few.of_append
      (by rw [pc]; rfl : (s.pc thread).window = some (.tail, ticket.toNat))
    refine tended_touch tended sound sound' (by rw [pc]; rfl)
      (Or.inr ⟨tends_popNext _ _, rfl⟩) (fun other _ => story_popNext _ _) fun here => ?_
    rw [story_append, story_popNext, List.append_nil]
    refine tended_release here ?_
    rw [toNat_releasedTurn capacity small, turn, turn_pass_tail]
  | _ pc => exact quiet rfl rfl (by rw [pc]; rfl) rfl fun _ => rfl

/-- In every run with fewer than `2 ^ 63` tickets all slots are in their stories. -/
theorem tended_of_reaches {bytes : UInt64 → Element}
    (run : Transitions.Reaches (system capacity moved) (start bytes) s trace)
    (few : FewTickets trace) : AllTended capacity s trace := by
  refine run.invariant (fun s trace => FewTickets trace → AllTended capacity s trace)
    (fun _ => tended_start bytes) ?_ few
  intro s trace action next events run inductionHypothesis step few
  have tended := inductionHypothesis few.of_append
  rcases system_cases step with ⟨thread, op, idle, rfl, rfl⟩ | ⟨thread, advanced⟩
  · refine tended_quiet thread tended rfl
      (fun other different => State.setPc_pc_other _ _ _ different) (by rw [idle]; rfl) ?_
      fun _ => rfl
    rw [State.setPc_pc_self]
    cases op <;> rfl
  · exact tended_advance tended (sound_of_reaches run few.of_append)
      (sound_of_reaches (.next run step) few) few advanced

end MPMCQueue

end Sheep
