/-
This file lets the construction of an element throw. The call ends there, with its
ticket claimed and nothing published; the queue catches nothing.

Such a queue behaves like one that never throws. Where a call fails, its thread
stands inside the constructor for good, and another thread takes over what it does
from then on.
-/

import Sheep.QueueStory

namespace Sheep

open Turnstile Transitions

namespace Slot

/-- What a constructor or a callable that throws leaves in the storage: other bytes, but no
object. -/
def spoil {Element : Type} (slot : Slot Element) (left : Element) : Slot Element :=
  { slot with data := left }

end Slot

namespace MPMCQueue

/-! ### Constructors that throw -/

namespace Throwing

inductive Action (Thread Element : Type)
  | act (action : MPMCQueue.Action Thread Element)
  | throws (thread : Thread) (left : Element)

/-- A call that throws has tickets left: the one of its element, and in a bulk push those of the
elements after it. -/
inductive Event (Thread Element : Type)
  | seen (event : MPMCQueue.Event Thread Element)
  | threw (thread : Thread) (first : UInt64) (count : Nat)

variable {Thread Element : Type}

/-- The queue, where a construction that has its slot may throw instead of being done. The exception
leaves the operation with its thread. -/
def system [DecidableEq Thread] (capacity : Capacity) (moved : Element → Element) :
    System (State Thread Element) (Action Thread Element) (Event Thread Element)
  | s, .act action =>
      (MPMCQueue.system capacity moved s action).map fun reached =>
        (reached.1, reached.2.map .seen)
  | s, .throws thread left =>
      match s.pc thread with
      | .construct ticket _ after =>
          let index := getSlot capacity ticket
          some ((s.setSlot index ((s.slots index).spoil left)).setPc thread .idle,
            [.threw thread ticket (after.left + 1)])
      | _ => none

/-- What can be seen apart from exceptions. -/
def Event.plain : Event Thread Element → Option (MPMCQueue.Event Thread Element)
  | .seen event => some event
  | .threw _ _ _ => none

def plain (trace : List (Event Thread Element)) : List (MPMCQueue.Event Thread Element) :=
  trace.filterMap Event.plain

theorem plain_append (trace events : List (Event Thread Element)) :
    plain (trace ++ events) = plain trace ++ plain events :=
  List.filterMap_append

theorem plain_seen (events : List (MPMCQueue.Event Thread Element)) :
    plain (events.map .seen) = events := by
  rw [plain, List.filterMap_map]
  exact List.filterMap_some

theorem mem_plain {trace : List (Event Thread Element)} {event : MPMCQueue.Event Thread Element} :
    event ∈ plain trace ↔ .seen event ∈ trace := by
  rw [plain, List.mem_filterMap]
  constructor
  · rintro ⟨seen, member, same⟩
    cases seen with
    | seen event' =>
      cases same
      exact member
    | threw _ _ _ => cases same
  · exact fun member => ⟨.seen event, member, rfl⟩

variable [DecidableEq Thread] {capacity : Capacity} {moved : Element → Element}
  {s next : State Thread Element} {events : List (Event Thread Element)}

/-- The actions: one of the queue, or an exception. -/
theorem system_cases {action : Action Thread Element}
    (step : system capacity moved s action = some (next, events)) :
    (∃ action' events', MPMCQueue.system capacity moved s action' = some (next, events') ∧
      events = events'.map .seen) ∨
    ∃ thread left ticket write after, s.pc thread = .construct ticket write after ∧
      next = (s.setSlot (getSlot capacity ticket)
        ((s.slots (getSlot capacity ticket)).spoil left)).setPc thread .idle ∧
      events = [.threw thread ticket (after.left + 1)] := by
  cases action with
  | act action' =>
    obtain ⟨⟨reached, events'⟩, step', same⟩ := Option.map_eq_some_iff.mp step
    cases same
    exact Or.inl ⟨action', events', step', rfl⟩
  | throws thread left =>
    rw [system] at step
    split at step
    · rename_i ticket write after pc
      cases step
      exact Or.inr ⟨thread, left, ticket, write, after, pc, rfl, rfl⟩
    · cases step

end Throwing

/-! ### Threads under other names -/

section Names

variable {Thread Thread' Element : Type}

def Event.rename (name : Thread' → Thread) : Event Thread' Element → Event Thread Element
  | .called thread op => .called (name thread) op
  | .claimedHead thread first count => .claimedHead (name thread) first count
  | .claimedTail thread ticket => .claimedTail (name thread) ticket
  | .constructed thread ticket element => .constructed (name thread) ticket element
  | .read thread ticket element => .read (name thread) ticket element
  | .destroyed index object => .destroyed index object
  | .returned thread value => .returned (name thread) value

theorem claims_rename (name : Thread' → Thread) (side : Side)
    (trace : List (Event Thread' Element)) :
    claims side (trace.map (Event.rename name)) = claims side trace := by
  rw [claims, claims, List.flatMap_map]
  refine congrArg (fun claimed => trace.flatMap claimed) (funext fun event => ?_)
  cases event <;> rfl

theorem pushNext_name (name : Thread' → Thread) (thread : Thread') (ticket : UInt64)
    (after : AfterPush Element) :
    (after.next thread ticket).1 = (after.next (name thread) ticket).1 ∧
      (after.next thread ticket).2.map (Event.rename name) =
        (after.next (name thread) ticket).2 := by
  cases after with
  | bulk rest => cases rest <;> exact ⟨rfl, rfl⟩
  | returnTrue => exact ⟨rfl, rfl⟩

theorem popNext_name (name : Thread' → Thread) (thread : Thread') (ticket : UInt64)
    (after : AfterPop Element) :
    (after.next thread ticket).1 = (after.next (name thread) ticket).1 ∧
      (after.next thread ticket).2.map (Event.rename name) =
        (after.next (name thread) ticket).2 := by
  cases after <;> exact ⟨rfl, rfl⟩

/-- Two queues in which a thread, called one thing here and another there, is about to do the same.
Elsewhere their slots may hold other bytes. -/
structure Alike (capacity : Capacity) (name : Thread' → Thread) (thread : Thread')
    (s : State Thread Element) (m : State Thread' Element) : Prop where
  head : m.head = s.head
  tail : m.tail = s.tail
  turns : ∀ index, (m.slots index).turn = (s.slots index).turn
  pc : m.pc thread = s.pc (name thread)
  slot : ∀ side ticket, (s.pc (name thread)).window = some (side, ticket) →
    m.slots (pass capacity side ticket).place = s.slots (pass capacity side ticket).place

/-- It has done the same in both. -/
structure Followed (name : Thread' → Thread) (thread : Thread') (s next : State Thread Element)
    (m next' : State Thread' Element) : Prop where
  head : next'.head = next.head
  tail : next'.tail = next.tail
  pc : next'.pc thread = next.pc (name thread)
  slots : ∀ index, next'.slots index = next.slots index ∨
    next'.slots index = m.slots index ∧ next.slots index = s.slots index

variable [DecidableEq Thread] [DecidableEq Thread'] {capacity : Capacity}
  {name : Thread' → Thread} {thread : Thread'} {s next : State Thread Element}
  {m : State Thread' Element} {events : List (Event Thread Element)}

theorem followed_setPc (alike : Alike capacity name thread s m) {pc pc' : Pc Element}
    (same : pc' = pc) :
    Followed name thread s (s.setPc (name thread) pc) m (m.setPc thread pc') := by
  refine ⟨alike.head, alike.tail, ?_, fun index => Or.inr ⟨rfl, rfl⟩⟩
  rw [State.setPc_pc_self, State.setPc_pc_self, same]

theorem followed_setSlot (alike : Alike capacity name thread s m) {pc pc' : Pc Element}
    (same : pc' = pc) (index : UInt64) (slot : Slot Element) :
    Followed name thread s ((s.setSlot index slot).setPc (name thread) pc) m
      ((m.setSlot index slot).setPc thread pc') := by
  refine ⟨alike.head, alike.tail, ?_, fun other => ?_⟩
  · rw [State.setPc_pc_self, State.setPc_pc_self, same]
  · by_cases this : other = index
    · subst this
      refine Or.inl ?_
      rw [State.setPc_slots, State.setPc_slots, State.setSlot_slots_self, State.setSlot_slots_self]
    · refine Or.inr ⟨?_, ?_⟩
      · rw [State.setPc_slots, State.setSlot_slots_other _ _ _ this]
      · rw [State.setPc_slots, State.setSlot_slots_other _ _ _ this]

/-- A step of one is a step of the other. -/
theorem advance_followed (alike : Alike capacity name thread s m)
    (step : advance capacity s (name thread) (s.pc (name thread)) = some (next, events)) :
    ∃ next' events', advance capacity m thread (m.pc thread) = some (next', events') ∧
      events'.map (Event.rename name) = events ∧ Followed name thread s next m next' := by
  have slot := alike.slot
  rw [alike.pc]
  cases pc : s.pc (name thread) <;> rw [pc] at step slot <;>
    simp only [advance, alike.head, alike.tail, alike.turns] at step ⊢
  case idle => cases step
  case fetchHead writes =>
    cases step
    obtain ⟨same, named⟩ := pushNext_name name thread s.head (.bulk writes)
    refine ⟨_, _, rfl, congrArg (_ :: ·) named, ?_⟩
    refine ⟨rfl, rfl, ?_, fun index => Or.inr ⟨rfl, rfl⟩⟩
    rw [State.setPc_pc_self, State.setPc_pc_self, same]
  case fetchTail change =>
    cases step
    refine ⟨_, _, rfl, rfl, rfl, rfl, ?_, fun index => Or.inr ⟨rfl, rfl⟩⟩
    rw [State.setPc_pc_self, State.setPc_pc_self]
  case casHead ticket write =>
    split at step <;> rename_i claimed <;> cases step
    · rw [if_pos claimed]
      refine ⟨_, _, rfl, rfl, rfl, rfl, ?_, fun index => Or.inr ⟨rfl, rfl⟩⟩
      rw [State.setPc_pc_self, State.setPc_pc_self]
    · rw [if_neg claimed]
      exact ⟨_, _, rfl, rfl, followed_setPc alike rfl⟩
  case casTail attempt change ticket count =>
    split at step <;> rename_i claimed <;> cases step
    · rw [if_pos claimed]
      refine ⟨_, _, rfl, rfl, rfl, rfl, ?_, fun index => Or.inr ⟨rfl, rfl⟩⟩
      rw [State.setPc_pc_self, State.setPc_pc_self]
    · rw [if_neg claimed]
      exact ⟨_, _, rfl, rfl, followed_setPc alike rfl⟩
  case awaitFree | awaitFull =>
    split at step <;> rename_i matched <;> cases step
    · rw [if_pos matched]
      exact ⟨_, _, rfl, rfl, followed_setPc alike rfl⟩
    · rw [if_neg matched]
      exact ⟨_, _, rfl, rfl, alike.head, alike.tail, alike.pc, fun index => Or.inr ⟨rfl, rfl⟩⟩
  case testFree | testFull | reloadHead | reloadTail =>
    split at step <;> rename_i matched <;> cases step
    · rw [if_pos matched]
      exact ⟨_, _, rfl, rfl, followed_setPc alike rfl⟩
    · rw [if_neg matched]
      exact ⟨_, _, rfl, rfl, followed_setPc alike rfl⟩
  case loadHead | loadTail =>
    cases step
    exact ⟨_, _, rfl, rfl, followed_setPc alike rfl⟩
  case construct ticket write after =>
    cases step
    have here := slot .head ticket.toNat rfl
    rw [pass_toNat] at here
    rw [here]
    exact ⟨_, _, rfl, rfl, followed_setSlot alike rfl _ _⟩
  case publish ticket after =>
    cases step
    have here := slot .head ticket.toNat rfl
    rw [pass_toNat] at here
    rw [here]
    obtain ⟨same, named⟩ := pushNext_name name thread (ticket + 1) after
    exact ⟨_, _, rfl, named, followed_setSlot alike same _ _⟩
  case read ticket change after =>
    cases step
    have here := slot .tail ticket.toNat rfl
    rw [pass_toNat] at here
    rw [here]
    exact ⟨_, _, rfl, rfl, followed_setSlot alike rfl _ _⟩
  case destroy ticket after =>
    cases step
    have here := slot .tail ticket.toNat rfl
    rw [pass_toNat] at here
    rw [here]
    exact ⟨_, _, rfl, rfl, followed_setSlot alike rfl _ _⟩
  case release ticket after =>
    cases step
    have here := slot .tail ticket.toNat rfl
    rw [pass_toNat] at here
    rw [here]
    obtain ⟨same, named⟩ := popNext_name name thread ticket after
    exact ⟨_, _, rfl, named, followed_setSlot alike same _ _⟩

end Names

/-! ### Incarnations -/

namespace Throwing

variable {Thread Element : Type} {capacity : Capacity} {epoch : Thread → Nat}
  {s next : State Thread Element} {m : State (Thread × Nat) Element}
  {trace events : List (Event Thread Element)} {thread : Thread} {first : UInt64} {count : Nat}

/-- An earlier incarnation of the thread stands in a constructor, with so many tickets left. -/
def Stalled (epoch : Thread → Nat) (m : State (Thread × Nat) Element) (thread : Thread)
    (first : UInt64) (count : Nat) : Prop :=
  ∃ past < epoch thread, ∃ write after, m.pc (thread, past) = .construct first write after ∧
    after.left + 1 = count

/-- A queue whose constructors throw, and one in which each throw stops an incarnation of a thread
for good, with the next incarnation in its place. The slots of those that have stopped may hold
other bytes. -/
structure Mirrors (capacity : Capacity) (epoch : Thread → Nat) (s : State Thread Element)
    (trace : List (Event Thread Element)) (m : State (Thread × Nat) Element) : Prop where
  head : m.head = s.head
  tail : m.tail = s.tail
  turns : ∀ index, (m.slots index).turn = (s.slots index).turn
  pc : ∀ thread, m.pc (thread, epoch thread) = s.pc thread
  fresh : ∀ thread later, epoch thread < later → m.pc (thread, later) = .idle
  past : ∀ thread earlier, earlier < epoch thread →
    ∃ first write after, m.pc (thread, earlier) = .construct first write after
  slots : ∀ index, m.slots index = s.slots index ∨
    ∃ thread first count, Stalled epoch m thread first count ∧ getSlot capacity first = index
  threw : ∀ thread first count, .threw thread first count ∈ trace →
    Stalled epoch m thread first count

theorem mirrors_start (bytes : UInt64 → Element) :
    Mirrors capacity (fun _ => 0) (start bytes : State Thread Element) [] (start bytes) :=
  ⟨rfl, rfl, fun _ => rfl, fun _ => rfl, fun _ _ _ => rfl,
    fun _ _ earlier => absurd earlier (Nat.not_lt_zero _), fun _ => Or.inl rfl,
    fun _ _ _ member => absurd member List.not_mem_nil⟩

theorem Stalled.window (stalled : Stalled epoch m thread first count) :
    ∃ past < epoch thread, (m.pc (thread, past)).window = some (.head, first.toNat) := by
  obtain ⟨past, earlier, write, after, pc, _⟩ := stalled
  exact ⟨past, earlier, by rw [pc]; rfl⟩

/-- A thread is not inside a slot in which an incarnation has stopped. -/
theorem slot_of_window (mirrors : Mirrors capacity epoch s trace m)
    (orderly : Orderly (m.board capacity)) {side : Side} {number : Nat}
    (window : (s.pc thread).window = some (side, number)) :
    m.slots (pass capacity side number).place = s.slots (pass capacity side number).place := by
  refine (mirrors.slots _).resolve_right ?_
  rintro ⟨other, first, count, stalled, place⟩
  obtain ⟨past, earlier, inside⟩ := stalled.window
  rw [← mirrors.pc] at window
  have alone := (orderly.alone ⟨_, _, window, rfl⟩ ⟨_, _, inside, rfl⟩
    (by rw [pass_toNat, place])).1
  cases alone
  exact absurd earlier (Nat.lt_irrefl _)

theorem alike_of_mirrors (mirrors : Mirrors capacity epoch s trace m)
    (orderly : Orderly (m.board capacity)) (thread : Thread) :
    Alike capacity Prod.fst (thread, epoch thread) s m :=
  ⟨mirrors.head, mirrors.tail, mirrors.turns, mirrors.pc thread,
    fun _ _ window => slot_of_window mirrors orderly window⟩

/-- What a thread that is not an earlier incarnation does leaves those where they are. -/
theorem Stalled.kept {m' : State (Thread × Nat) Element} {other : Thread}
    (stalled : Stalled epoch m thread first count)
    (others : ∀ incarnation, incarnation ≠ (other, epoch other) →
      m'.pc incarnation = m.pc incarnation) : Stalled epoch m' thread first count := by
  obtain ⟨past, earlier, write, after, pc, left⟩ := stalled
  refine ⟨past, earlier, write, after, (others _ fun same => ?_).trans pc, left⟩
  cases same
  exact absurd earlier (Nat.lt_irrefl _)

/-- A step of the present incarnation. -/
theorem mirrors_advance {m' : State (Thread × Nat) Element}
    {events : List (MPMCQueue.Event Thread Element)} (mirrors : Mirrors capacity epoch s trace m)
    (followed : Followed Prod.fst (thread, epoch thread) s next m m')
    (others : ∀ other, other ≠ thread → next.pc other = s.pc other)
    (others' : ∀ incarnation, incarnation ≠ (thread, epoch thread) →
      m'.pc incarnation = m.pc incarnation) :
    Mirrors capacity epoch next (trace ++ events.map .seen) m' := by
  refine ⟨followed.head, followed.tail, fun index => ?_, fun other => ?_,
    fun other later fresh => ?_, fun other earlier past => ?_, fun index => ?_,
    fun other first count member => ?_⟩
  · rcases followed.slots index with same | ⟨same, same'⟩
    · rw [same]
    · rw [same, same']
      exact mirrors.turns index
  · by_cases this : other = thread
    · subst this
      exact followed.pc
    · rw [others other this, others' _ fun same => this (Prod.mk.inj same).1]
      exact mirrors.pc other
  · rw [others' _ ?_]
    · exact mirrors.fresh other later fresh
    · intro same
      cases same
      exact absurd fresh (Nat.lt_irrefl _)
  · rw [others' _ ?_]
    · exact mirrors.past other earlier past
    · intro same
      cases same
      exact absurd past (Nat.lt_irrefl _)
  · rcases followed.slots index with same | ⟨same, same'⟩
    · exact Or.inl same
    · rcases mirrors.slots index with old | ⟨other, first, count, stalled, place⟩
      · exact Or.inl (same.trans (old.trans same'.symm))
      · exact Or.inr ⟨other, first, count, stalled.kept others', place⟩
  · rcases List.mem_append.mp member with old | new
    · exact (mirrors.threw other first count old).kept others'
    · obtain ⟨_, _, same⟩ := List.mem_map.mp new
      cases same

variable [DecidableEq Thread]

/-- With a throw the next incarnation takes over. -/
theorem mirrors_throws (mirrors : Mirrors capacity epoch s trace m) (left : Element)
    {write : Element → Element} {after : AfterPush Element}
    (pc : s.pc thread = .construct first write after) :
    Mirrors capacity (Function.update epoch thread (epoch thread + 1))
      ((s.setSlot (getSlot capacity first)
        ((s.slots (getSlot capacity first)).spoil left)).setPc thread .idle)
      (trace ++ [.threw thread first (after.left + 1)]) m := by
  have stopped := (mirrors.pc thread).trans pc
  have stalled : Stalled (Function.update epoch thread (epoch thread + 1)) m thread first
      (after.left + 1) := by
    refine ⟨epoch thread, ?_, write, after, stopped, rfl⟩
    rw [Function.update_self]
    exact Nat.lt_succ_self _
  have onward (other : Thread) :
      epoch other ≤ Function.update epoch thread (epoch thread + 1) other := by
    by_cases this : other = thread
    · subst this
      rw [Function.update_self]
      exact Nat.le_succ _
    · rw [Function.update_of_ne this]
  have older {other : Thread} {first' : UInt64} {count : Nat}
      (stalled : Stalled epoch m other first' count) :
      Stalled (Function.update epoch thread (epoch thread + 1)) m other first' count := by
    obtain ⟨past, earlier, rest⟩ := stalled
    exact ⟨past, Nat.lt_of_lt_of_le earlier (onward other), rest⟩
  refine ⟨mirrors.head, mirrors.tail, fun index => ?_, fun other => ?_,
    fun other later fresh => ?_, fun other earlier past => ?_, fun index => ?_,
    fun other first' count member => ?_⟩
  · by_cases this : index = getSlot capacity first
    · subst this
      rw [State.setPc_slots, State.setSlot_slots_self]
      exact mirrors.turns _
    · rw [State.setPc_slots, State.setSlot_slots_other _ _ _ this]
      exact mirrors.turns index
  · by_cases this : other = thread
    · subst this
      rw [Function.update_self, State.setPc_pc_self]
      exact mirrors.fresh other _ (Nat.lt_succ_self _)
    · rw [Function.update_of_ne this, State.setPc_pc_other _ _ _ this]
      exact mirrors.pc other
  · exact mirrors.fresh other later (Nat.lt_of_le_of_lt (onward other) fresh)
  · by_cases before : earlier < epoch other
    · exact mirrors.past other earlier before
    · by_cases this : other = thread
      · subst this
        rw [Function.update_self] at past
        have same : earlier = epoch other := by omega
        rw [same]
        exact ⟨first, write, after, stopped⟩
      · rw [Function.update_of_ne this] at past
        exact absurd past before
  · by_cases this : index = getSlot capacity first
    · exact Or.inr ⟨thread, first, _, stalled, this.symm⟩
    · rw [State.setPc_slots, State.setSlot_slots_other _ _ _ this]
      exact (mirrors.slots index).imp_right
        fun ⟨other, first', count, old, place⟩ => ⟨other, first', count, older old, place⟩
  · rcases List.mem_append.mp member with old | new
    · exact older (mirrors.threw other first' count old)
    · cases List.mem_singleton.mp new
      exact stalled

variable {moved : Element → Element} {bytes : UInt64 → Element}

/-- An action of the queue is one of the present incarnation. -/
theorem mirrors_act {trace' : List (MPMCQueue.Event (Thread × Nat) Element)}
    {events : List (MPMCQueue.Event Thread Element)} {action : MPMCQueue.Action Thread Element}
    (mirrors : Mirrors capacity epoch s trace m)
    (run : Reaches (MPMCQueue.system capacity moved) (start bytes) m trace')
    (few : FewTickets trace')
    (step : MPMCQueue.system capacity moved s action = some (next, events)) :
    ∃ m' events', Reaches (MPMCQueue.system capacity moved) (start bytes) m' (trace' ++ events') ∧
      events'.map (Event.rename Prod.fst) = events ∧
      Mirrors capacity epoch next (trace ++ events.map .seen) m' := by
  rcases MPMCQueue.system_cases step with ⟨thread, op, idle, rfl, rfl⟩ | ⟨thread, advanced⟩
  · have present : m.pc (thread, epoch thread) = .idle := (mirrors.pc thread).trans idle
    have step' : MPMCQueue.system capacity moved m (.call (thread, epoch thread) op) =
        some (m.setPc (thread, epoch thread) (op.entry moved),
          [.called (thread, epoch thread) op]) := by
      rw [MPMCQueue.system, present]
    have followed : Followed Prod.fst (thread, epoch thread) s (s.setPc thread (op.entry moved)) m
        (m.setPc (thread, epoch thread) (op.entry moved)) := by
      refine ⟨mirrors.head, mirrors.tail, ?_, fun index => Or.inr ⟨rfl, rfl⟩⟩
      rw [State.setPc_pc_self, State.setPc_pc_self]
    refine ⟨_, _, .next run step', rfl, mirrors_advance mirrors followed ?_ ?_⟩
    · exact fun other different => State.setPc_pc_other _ _ _ different
    · exact fun incarnation different => State.setPc_pc_other _ _ _ different
  · obtain ⟨m', events', advanced', named, followed⟩ :=
      advance_followed (alike_of_mirrors mirrors (sound_of_reaches run few).orderly thread) advanced
    have step' : MPMCQueue.system capacity moved m (.step (thread, epoch thread)) =
        some (m', events') := advanced'
    refine ⟨m', events', .next run step', named, mirrors_advance mirrors followed ?_ ?_⟩
    · exact fun other different => pc_advance_other advanced different
    · exact fun incarnation different => pc_advance_other advanced' different

/-- Every run in which constructors throw mirrors one in which none does. -/
theorem mirrored_of_reaches
    (run : Reaches (system capacity moved) (start bytes) s trace) (few : FewTickets (plain trace)) :
    ∃ epoch m trace', Reaches (MPMCQueue.system capacity moved) (start bytes) m trace' ∧
      trace'.map (Event.rename Prod.fst) = plain trace ∧ Mirrors capacity epoch s trace m := by
  refine run.invariant (fun s trace => FewTickets (plain trace) → ∃ epoch m trace',
    Reaches (MPMCQueue.system capacity moved) (start bytes) m trace' ∧
      trace'.map (Event.rename Prod.fst) = plain trace ∧ Mirrors capacity epoch s trace m)
    (fun _ => ⟨fun _ => 0, start bytes, [], .start, rfl, mirrors_start bytes⟩) ?_ few
  intro s trace action next events _ inductionHypothesis step few
  rw [plain_append] at few
  obtain ⟨epoch, m, trace', run', named, mirrors⟩ := inductionHypothesis few.of_append
  rcases system_cases step with ⟨action', events', step', rfl⟩ | ⟨thread, left, ticket, write,
    after, pc, rfl, rfl⟩
  · have few' : FewTickets trace' := by
      intro side
      rw [← claims_rename Prod.fst side, named]
      exact few.of_append side
    obtain ⟨m', events'', run'', named', mirrors'⟩ := mirrors_act mirrors run' few' step'
    refine ⟨epoch, m', _, run'', ?_, mirrors'⟩
    rw [List.map_append, named, named', plain_append, plain_seen]
  · refine ⟨_, m, trace', run', ?_, mirrors_throws mirrors left pc⟩
    rw [named, plain_append]
    exact (List.append_nil _).symm

end Throwing

end MPMCQueue

end Sheep
