/-
This file follows a logger to its end. A poll that flushes leaves nothing in the
buffer, because it goes past `writeFile` whenever it has read a record; and the
poll of the destructor, which nobody disturbs, only gives up when all tickets
have been read. So when the destructor returns everything that was logged is in
the files.
-/

import Sheep.LoggerLife
import Sheep.LoggerOrder

namespace Sheep

namespace Logger

variable {Thread File Message : Type} {RecordSize : Nat}

/-! ### Polls that nobody disturbs -/

/-- Where no thread holds a ticket, the next record is there if any ticket has been claimed for
one. -/
theorem full_of_unheld {Element : Type} {capacity : MPMCQueue.Capacity}
    {queue : MPMCQueue.State Thread Element} {trace : List (MPMCQueue.Event Thread Element)}
    (sound : MPMCQueue.Sound capacity queue trace) (few : MPMCQueue.FewTickets trace)
    (unheld : ∀ thread, (queue.pc thread).held = none)
    (behind : queue.tail.toNat < queue.head.toNat) :
    MPMCQueue.fullTurn capacity queue.tail =
      (queue.slots (MPMCQueue.getSlot capacity queue.tail)).turn := by
  have small : queue.tail.toNat < 2 ^ 63 := by
    have bounded := few .tail
    rwa [sound.claimed .tail, List.length_range] at bounded
  have published := sound.orderly.issued_kept
    (MPMCQueue.pass capacity .head queue.tail.toNat) ⟨.head, _, behind, rfl⟩
  have unread : ¬ (queue.board capacity).issued
      (MPMCQueue.pass capacity .tail queue.tail.toNat) := by
    rintro ⟨side, ticket, claimed, same⟩
    have bounded : ticket < 2 ^ 64 := by
      cases side
      · exact lt_trans claimed queue.head.toNat_lt
      · exact lt_trans claimed queue.tail.toNat_lt
    obtain ⟨rfl, rfl⟩ := MPMCQueue.pass_injective queue.tail.toNat_lt bounded same
    exact absurd claimed (lt_irrefl _)
  have ahead := sound.orderly.le_of_fresh unread
  rcases published with passed | ⟨holder, side, ticket, holds, _⟩
  · refine UInt64.toNat_inj.mp ?_
    rw [MPMCQueue.toNat_fullTurn capacity small]
    rw [MPMCQueue.pass_toNat] at passed ahead
    rw [MPMCQueue.turn_pass_head] at passed
    rw [MPMCQueue.turn_pass_tail] at ahead
    exact le_antisymm passed ahead
  · exact absurd holds (MPMCQueue.not_holds_of_none (unheld holder))

/-- A thread that has found no next record has left none. -/
def Drained (s : State Thread File RecordSize) (thread : Thread) : Prop :=
  match s.pc thread, s.queue.pc thread with
  | .tryConsumeAll _, .reloadTail _ _ _ _ => s.queue.head = s.queue.tail
  | .tryConsumeAll _, _ => True
  | _, _ => s.queue.head = s.queue.tail

theorem queue_ite [DecidableEq File] (s : State Thread File RecordSize) (flush : Prop)
    [Decidable flush] : (if flush then s.writeFile else s).queue = s.queue := by
  split
  · exact writeFile_queue s
  · rfl

theorem pc_ite [DecidableEq File] (s : State Thread File RecordSize) (flush : Prop)
    [Decidable flush] :
    (if flush then s.writeFile else s).pc = s.pc := by
  split
  · exact writeFile_pc s
  · rfl

section Drained

variable [DecidableEq Thread] [DecidableEq File] {QCap : MPMCQueue.Capacity}
  {formatToN : FormatToN Message} {formatted : Message → List UInt8}
  {s next : State Thread File RecordSize} {trace events : List (Event Thread RecordSize Message)}
  {order : List (Thread × Message)} {read : Nat} {batches : List (List UInt8)} {thread : Thread}

/-- A step of the only thread that is in the logger. -/
theorem drained_step (recorded : Recorded formatToN formatted s trace order read batches)
    (sound : MPMCQueue.Sound QCap s.queue (queueTrace trace))
    (few : MPMCQueue.FewTickets (queueTrace trace)) (polls : (s.pc thread).Polls)
    (others : ∀ other, other ≠ thread → s.queue.pc other = .idle) (drained : Drained s thread)
    {behind : Nat → UInt8}
    (step : system QCap formatToN s (.step thread behind) = some (next, events)) :
    Drained next thread := by
  have stepped := steps_of_system step
  cases stepped with
  | emplace pc advanced =>
    rw [pc] at polls
    exact absurd polls id
  | @testThreshold _ behind flushFile pc =>
    rw [Drained, pc] at drained
    rw [Drained, State.setPc_pc_self, State.setPc_queue, queue_ite]
    exact drained
  | @testFlush _ behind flushFile pc =>
    rw [Drained, pc] at drained
    rw [Drained, State.setPc_pc_self, State.setPc_queue, queue_ite]
    exact drained
  | @consume _ behind flushFile queue queued pc advanced =>
    have consumes := recorded.consumes pc
    rw [Drained, pc] at drained
    rw [Drained, State.setPc_pc_self, State.setPc_queue]
    generalize here : s.queue.pc thread = qpc at consumes advanced drained
    cases consumes with
    | load same =>
      cases advanced
      rw [MPMCQueue.State.setPc_pc_self]
      trivial
    | @test count same =>
      rw [MPMCQueue.advance] at advanced
      split at advanced <;> cases advanced <;> rw [MPMCQueue.State.setPc_pc_self]
      · trivial
      · rename_i notFull
        show s.queue.head = s.queue.tail
        by_contra different
        have behind : s.queue.tail.toNat < s.queue.head.toNat := by
          have le := recorded.le
          have head := recorded.head
          have apart : s.queue.head.toNat ≠ s.queue.tail.toNat :=
            fun equal => different (UInt64.toNat_inj.mp equal)
          omega
        refine notFull (full_of_unheld sound few (fun other => ?_) behind)
        by_cases this : other = thread
        · rw [this, here]
          rfl
        · rw [others other this]
          rfl
    | @cas count same =>
      rw [MPMCQueue.advance, if_pos rfl] at advanced
      cases advanced
      rw [MPMCQueue.State.setPc_pc_self]
      trivial
    | @reload count same =>
      rw [MPMCQueue.advance, if_pos rfl] at advanced
      cases advanced
      rw [MPMCQueue.State.setPc_pc_self]
      cases count <;> exact drained
    | read here same =>
      cases advanced
      rw [MPMCQueue.State.setPc_pc_self]
      trivial
    | destroy here same =>
      cases advanced
      rw [MPMCQueue.State.setPc_pc_self]
      trivial
    | release here same =>
      cases advanced
      rw [MPMCQueue.State.setPc_pc_self]
      trivial

end Drained

/-! ### Polls that flush -/

/-- The consumer has read a record. -/
def Counted : MPMCQueue.Pc (FixedSizeRecord RecordSize) → Prop
  | .testFull _ _ _ count | .casTail _ _ _ count | .reloadTail _ _ _ count => 0 < count
  | .read _ _ (.drain _ count) => 0 < count
  | .destroy _ _ | .release _ _ => True
  | _ => False

/-- The thread will come to `writeFile`, if its poll flushes. -/
def Carries : Pc → MPMCQueue.Pc (FixedSizeRecord RecordSize) → Prop
  | .tryConsumeAll _, pc => Counted pc
  | .testThreshold _, _ | .testFlush _, _ => True
  | _, _ => False

/-- A poll of this kind flushes. -/
def Pc.Flushes : Pc → Prop
  | .tryConsumeAll flushFile | .testThreshold flushFile | .testFlush flushFile => flushFile = true
  | _ => True

/-- The buffer is empty, or somebody is on the way to `writeFile`. -/
def Carried (s : State Thread File RecordSize) : Prop :=
  s.buf = [] ∨ ∃ thread, Carries (s.pc thread) (s.queue.pc thread)

theorem polls_of_carries {pc : Pc} {qpc : MPMCQueue.Pc (FixedSizeRecord RecordSize)}
    (carries : Carries pc qpc) : pc.Polls := by
  cases pc <;> trivial

/-- Whose step it is. -/
def Action.actor : Action Thread Message → Thread
  | .log thread _ _ => thread
  | .poll thread _ => thread
  | .step thread _ => thread

section Carried

variable [DecidableEq Thread] {QCap : MPMCQueue.Capacity}
  {queue next : MPMCQueue.State Thread (FixedSizeRecord RecordSize)} {thread : Thread}
  {queued : List (MPMCQueue.Event Thread (FixedSizeRecord RecordSize))} {read : Nat}

/-- A consumer that has read a record remembers it; one that has not reads one, or returns zero. -/
theorem counted_advance (consumes : Consumes queue.tail read (queue.pc thread))
    (step : MPMCQueue.advance QCap queue thread (queue.pc thread) = some (next, queued)) :
    (∃ count, MPMCQueue.returned queued = some (.count (count + 1)) ∧
        Counted (queue.pc thread)) ∨
      (Counted (next.pc thread) ∧ MPMCQueue.returned queued = none) ∨
      (¬ Counted (queue.pc thread) ∧ ∀ event ∈ queued, event.uses = none) := by
  generalize pc : queue.pc thread = here at consumes step
  cases consumes with
  | load same =>
    cases step
    exact Or.inr (Or.inr ⟨id, List.forall_mem_nil _⟩)
  | @test count same =>
    rw [MPMCQueue.advance] at step
    by_cases counted : 0 < count
    · refine Or.inr (Or.inl ?_)
      split at step <;> cases step <;> rw [MPMCQueue.State.setPc_pc_self]
      · exact ⟨counted, rfl⟩
      · exact ⟨counted, rfl⟩
    · refine Or.inr (Or.inr ⟨counted, ?_⟩)
      split at step <;> cases step
      · exact List.forall_mem_nil _
      · exact List.forall_mem_nil _
  | @cas count same =>
    rw [MPMCQueue.advance, if_pos rfl] at step
    cases step
    by_cases counted : 0 < count
    · refine Or.inr (Or.inl ?_)
      rw [MPMCQueue.State.setPc_pc_self]
      exact ⟨counted, rfl⟩
    · exact Or.inr (Or.inr ⟨counted, List.forall_mem_singleton.mpr rfl⟩)
  | @reload count same =>
    rw [MPMCQueue.advance, if_pos rfl] at step
    cases step
    cases count with
    | zero => exact Or.inr (Or.inr ⟨lt_irrefl 0, List.forall_mem_singleton.mpr rfl⟩)
    | succ count => exact Or.inl ⟨count, rfl, Nat.succ_pos count⟩
  | read here same =>
    cases step
    refine Or.inr (Or.inl ?_)
    rw [MPMCQueue.State.setPc_pc_self]
    exact ⟨trivial, rfl⟩
  | destroy here same =>
    cases step
    refine Or.inr (Or.inl ?_)
    rw [MPMCQueue.State.setPc_pc_self]
    exact ⟨trivial, rfl⟩
  | release here same =>
    cases step
    refine Or.inr (Or.inl ?_)
    rw [MPMCQueue.State.setPc_pc_self]
    exact ⟨Nat.succ_pos _, rfl⟩

variable [DecidableEq File] {formatToN : FormatToN Message} {formatted : Message → List UInt8}
  {s after : State Thread File RecordSize}
  {trace events : List (Event Thread RecordSize Message)} {order : List (Thread × Message)}
  {batches : List (List UInt8)}

/-- In runs whose polls flush and do not overlap nothing is left in the buffer. -/
theorem carried_step (recorded : Recorded formatToN formatted s trace order read batches)
    {action : Action Thread Message} (carried : Carried s) (alone : Alone s action)
    (flushes : ∀ thread, (s.pc thread).Flushes)
    (step : system QCap formatToN s action = some (after, events)) : Carried after := by
  have stepped := steps_of_system step
  -- who is on the way to `writeFile` stays there while others step
  have stays {thread : Thread} {pc : Pc}
      {queue : MPMCQueue.State Thread (FixedSizeRecord RecordSize)}
      (others : ∀ other, other ≠ thread → queue.pc other = s.queue.pc other)
      (quiet : ¬ Carries (s.pc thread) (s.queue.pc thread)) :
      Carried ({ s with queue }.setPc thread pc) := by
    refine carried.imp id ?_
    rintro ⟨carrier, carries⟩
    have different : carrier ≠ thread := by
      rintro rfl
      exact quiet carries
    refine ⟨carrier, ?_⟩
    rw [State.setPc_pc_other _ _ _ different, State.setPc_queue, others carrier different]
    exact carries
  cases stepped with
  | dropped => exact carried
  | @log thread level message idle =>
    refine stays (fun other different => MPMCQueue.State.setPc_pc_other _ _ _ different) ?_
    rw [idle]
    exact id
  | @poll thread flushFile idle =>
    refine stays (fun other different => MPMCQueue.State.setPc_pc_other _ _ _ different) ?_
    rw [idle]
    exact id
  | @emplace thread behind queue queued pc advanced =>
    refine stays (fun other different => MPMCQueue.pc_advance_other advanced different) ?_
    rw [pc]
    exact id
  | @consume thread behind flushFile queue queued pc advanced =>
    have consumes := recorded.consumes pc
    rcases counted_advance consumes advanced with ⟨count, returned, _⟩ | ⟨counted, returned⟩ |
      ⟨notCounted, unused⟩
    · refine Or.inr ⟨thread, ?_⟩
      rw [State.setPc_pc_self, returned]
      trivial
    · refine Or.inr ⟨thread, ?_⟩
      rw [State.setPc_pc_self, returned]
      exact counted
    · refine Or.inl ?_
      have nobody : ¬ ∃ thread, Carries (s.pc thread) (s.queue.pc thread) := by
        rintro ⟨carrier, carries⟩
        obtain rfl := recorded.alone carrier thread (polls_of_carries carries) (by rw [pc]; trivial)
        rw [pc] at carries
        exact notCounted carries
      rw [State.setPc_buf, appends_of_unused unused]
      exact (List.append_nil _).trans (carried.resolve_right nobody)
  | @testThreshold thread behind flushFile pc =>
    refine Or.inr ⟨thread, ?_⟩
    rw [State.setPc_pc_self]
    trivial
  | @testFlush thread behind flushFile pc =>
    have flushed : flushFile = true := by
      have flush := flushes thread
      rw [pc] at flush
      exact flush
    rw [if_pos flushed]
    exact Or.inl (writeFile_buf s)

/-- Other threads stand where they stood. -/
theorem pc_system_other {action : Action Thread Message}
    (step : system QCap formatToN s action = some (after, events)) {other : Thread}
    (different : other ≠ action.actor) :
    after.pc other = s.pc other ∧ after.queue.pc other = s.queue.pc other := by
  have stepped := steps_of_system step
  cases stepped with
  | dropped => exact ⟨rfl, rfl⟩
  | log idle =>
    exact ⟨State.setPc_pc_other _ _ _ different,
      MPMCQueue.State.setPc_pc_other _ _ _ different⟩
  | poll idle =>
    exact ⟨State.setPc_pc_other _ _ _ different,
      MPMCQueue.State.setPc_pc_other _ _ _ different⟩
  | emplace pc advanced =>
    exact ⟨State.setPc_pc_other _ _ _ different, MPMCQueue.pc_advance_other advanced different⟩
  | consume pc advanced =>
    exact ⟨State.setPc_pc_other _ _ _ different, MPMCQueue.pc_advance_other advanced different⟩
  | testThreshold pc =>
    refine ⟨(State.setPc_pc_other _ _ _ different).trans ?_, ?_⟩
    · rw [pc_ite]
    · rw [State.setPc_queue, queue_ite]
  | testFlush pc =>
    refine ⟨(State.setPc_pc_other _ _ _ different).trans ?_, ?_⟩
    · rw [pc_ite]
    · rw [State.setPc_queue, queue_ite]

theorem outputs_system {action : Action Thread Message}
    (step : system QCap formatToN s action = some (after, events)) :
    after.outputs = s.outputs := by
  have stepped := steps_of_system step
  cases stepped with
  | testThreshold pc =>
    rw [State.setPc_outputs]
    split
    · exact writeFile_outputs s
    · rfl
  | testFlush pc =>
    rw [State.setPc_outputs]
    split
    · exact writeFile_outputs s
    · rfl
  | _ => rfl

/-- A thread that polls goes on polling the same way until it is done. -/
theorem polls_step {behind : Nat → UInt8} (polls : (s.pc thread).Polls)
    (step : system QCap formatToN s (.step thread behind) = some (after, events)) :
    after.pc thread = .idle ∨
      (after.pc thread).Polls ∧ ((s.pc thread).Flushes → (after.pc thread).Flushes) := by
  have stepped := steps_of_system step
  cases stepped with
  | emplace pc advanced =>
    rw [pc] at polls
    exact absurd polls id
  | @consume _ behind flushFile queue queued pc advanced =>
    rw [State.setPc_pc_self, pc]
    match MPMCQueue.returned queued with
    | none => exact Or.inr ⟨trivial, id⟩
    | some (.count (count + 1)) => exact Or.inr ⟨trivial, id⟩
    | some (.count 0) => exact Or.inl rfl
    | some .unit => exact Or.inl rfl
    | some (.bool value) => exact Or.inl rfl
  | testThreshold pc =>
    rw [State.setPc_pc_self, pc]
    exact Or.inr ⟨trivial, id⟩
  | testFlush pc => exact Or.inl (State.setPc_pc_self ..)

/-- A thread that does not poll does not come to poll by itself. -/
theorem not_polls_step {behind : Nat → UInt8} (none : ¬ (s.pc thread).Polls)
    (step : system QCap formatToN s (.step thread behind) = some (after, events)) :
    ¬ (after.pc thread).Polls := by
  have stepped := steps_of_system step
  cases stepped with
  | @emplace _ behind queue queued pc advanced =>
    rw [State.setPc_pc_self]
    split <;> exact id
  | consume pc advanced => exact absurd (by rw [pc]; trivial) none
  | testThreshold pc => exact absurd (by rw [pc]; trivial) none
  | testFlush pc => exact absurd (by rw [pc]; trivial) none

end Carried

/-! ### The life of a logger -/

/-- Few tickets, and messages that fit. -/
structure Modest (formatted : Message → List UInt8)
    (trace : List (Event (Party Thread) RecordSize Message)) : Prop where
  few : MPMCQueue.FewTickets (queueTrace trace)
  fits : ∀ thread message, .logged thread message ∈ trace →
    (formatted message).length ≤ RecordSize

theorem Modest.of_append {formatted : Message → List UInt8}
    {trace events : List (Event (Party Thread) RecordSize Message)}
    (modest : Modest formatted (trace ++ events)) :
    Modest formatted trace := by
  have few := modest.few
  rw [queueTrace_append] at few
  exact ⟨few.of_append, fun thread message member =>
    modest.fits thread message (List.mem_append_left _ member)⟩

section Life

variable [DecidableEq Thread] [DecidableEq File] {QCap : MPMCQueue.Capacity}
  {formatToN : FormatToN Message} {formatted : Message → List UInt8}
  {bytes : UInt64 → FixedSizeRecord RecordSize} {outputs : List File}
  {s next : Life Thread File RecordSize}
  {trace events : List (Event (Party Thread) RecordSize Message)}

/-- The background thread has been joined. -/
def Owner.Joined : Owner → Prop
  | .poll | .polling | .closeLogFiles | .gone => True
  | _ => False

/-- The background thread has not been told to stop. -/
def Owner.Early : Owner → Prop
  | .alive | .testRunning | .clearRunning => True
  | _ => False

/-- The destructor finds nothing to close. -/
def Owner.Closing : Owner → Prop
  | .closePoll | .closePolling | .close => True
  | _ => False

/-- Where the parties stand. -/
structure Placed (s : Life Thread File RecordSize) : Prop where
  callers : ∀ thread, ¬ (s.logger.pc (.caller thread)).Polls
  returned : s.owner ≠ .alive → ∀ thread, s.logger.pc (.caller thread) = .idle
  asleep : s.background ≠ .poll → s.logger.pc .background = .idle
  polls : s.background = .poll → (s.logger.pc .background).Polls
  waiting : s.owner ≠ .polling → s.logger.pc .owner = .idle
  destroys : s.owner = .polling → (s.logger.pc .owner).Polls
  flushes : ∀ party, (s.logger.pc party).Flushes
  running : s.owner.Early → s.bgtRunning = true
  joined : s.owner.Joined → s.background = .exited
  unclosed : ¬ s.owner.Closing

/-- What holds inside the logger. -/
structure Inside (QCap : MPMCQueue.Capacity) (formatToN : FormatToN Message)
    (formatted : Message → List UInt8) (bytes : UInt64 → FixedSizeRecord RecordSize)
    (outputs : List File) (logger : State (Party Thread) File RecordSize)
    (trace : List (Event (Party Thread) RecordSize Message)) : Prop where
  told : Told QCap formatToN bytes logger trace
  recorded : ∃ order read batches,
    Recorded formatToN formatted logger trace order read batches
  carried : Carried logger
  attached : logger.outputs = outputs

/-- The invariant of the life of a logger. -/
structure Kept (QCap : MPMCQueue.Capacity) (formatToN : FormatToN Message)
    (formatted : Message → List UInt8) (bytes : UInt64 → FixedSizeRecord RecordSize)
    (outputs : List File) (s : Life Thread File RecordSize)
    (trace : List (Event (Party Thread) RecordSize Message)) : Prop where
  placed : Placed s
  inside : Inside QCap formatToN formatted bytes outputs s.logger trace
  drained : s.owner = .polling → Drained s.logger .owner
  ended : s.owner = .closeLogFiles ∨ s.owner = .gone →
    s.logger.queue.head = s.logger.queue.tail

theorem Pc.flushes_of_not_polls {pc : Pc} (none : ¬ pc.Polls) : pc.Flushes := by
  cases pc <;> first | trivial | exact absurd trivial none

theorem kept_born (logLevel : LogLevel) :
    Kept QCap formatToN formatted bytes outputs
      (born bytes logLevel outputs : Life Thread File RecordSize) [] := by
  refine ⟨⟨fun _ => id, fun _ _ => rfl, fun _ => rfl, ?_, fun _ => rfl, ?_, fun _ => trivial,
    fun _ => rfl, fun joined => absurd joined id, id⟩, ⟨?_, ?_, Or.inl rfl, rfl⟩, ?_, ?_⟩
  · exact fun same => by cases same
  · exact fun same => by cases same
  · exact ⟨.start, fun _ _ member => absurd member List.not_mem_nil,
      fun _ _ _ member => absurd member List.not_mem_nil,
      fun _ _ member => absurd member List.not_mem_nil⟩
  · refine ⟨[], 0, [], rfl, le_refl _, rfl, fun thread => ⟨[], .idle, rfl⟩, ?_,
      fun _ _ polls => absurd polls id, fun _ => rfl, rfl, fun _ => rfl⟩
    exact fun _ _ _ member => absurd member List.not_mem_nil
  · exact fun same => by cases same
  · rintro (same | same) <;> cases same

variable {logger after : State (Party Thread) File RecordSize}

/-- A step of some thread inside the logger. -/
theorem inside_step (action : Action (Party Thread) Message)
    (documented : Documented formatToN formatted) (modest : Modest formatted (trace ++ events))
    (inside : Inside QCap formatToN formatted bytes outputs logger trace)
    (alone : Alone logger action) (flushes : ∀ party, (logger.pc party).Flushes)
    (step : system QCap formatToN logger action = some (after, events)) :
    Inside QCap formatToN formatted bytes outputs after (trace ++ events) := by
  obtain ⟨order, read, batches, recorded⟩ := inside.recorded
  refine ⟨told_of_happens inside.told (happens_of_step step),
    recorded_step recorded documented modest.of_append.fits inside.told modest.few alone step,
    carried_step recorded inside.carried alone flushes step, ?_⟩
  rw [outputs_system step]
  exact inside.attached

/-- Steps of the threads that log leave the other parties where they are. -/
theorem placed_caller {thread : Thread} {action : Action (Party Thread) Message}
    (placed : Placed s) (actor : action.actor = .caller thread)
    (step : system QCap formatToN s.logger action = some (after, events))
    (own : ¬ (after.pc (.caller thread)).Polls)
    (returned : s.owner ≠ .alive → after.pc (.caller thread) = .idle) :
    Placed { s with logger := after } := by
  have others (other : Party Thread) (different : other ≠ .caller thread) :
      after.pc other = s.logger.pc other :=
    (pc_system_other step (by rw [actor]; exact different)).1
  have background := others .background (fun same => by cases same)
  have owner := others .owner (fun same => by cases same)
  refine ⟨fun other => ?_, fun gone other => ?_, fun still => ?_, fun still => ?_, fun still => ?_,
    fun still => ?_, fun party => ?_, placed.running, placed.joined, placed.unclosed⟩
  · by_cases this : other = thread
    · rw [this]
      exact own
    · rw [others (.caller other) (fun same => this (by cases same; rfl))]
      exact placed.callers other
  · by_cases this : other = thread
    · rw [this]
      exact returned gone
    · rw [others (.caller other) (fun same => this (by cases same; rfl))]
      exact placed.returned gone other
  · exact background.trans (placed.asleep still)
  · rw [background]
    exact placed.polls still
  · exact owner.trans (placed.waiting still)
  · rw [owner]
    exact placed.destroys still
  · by_cases this : party = .caller thread
    · rw [this]
      exact Pc.flushes_of_not_polls own
    · rw [others party this]
      exact placed.flushes party

/-- The background thread polls: in the logger only its place changes. -/
theorem placed_background {action : Action (Party Thread) Message} (placed : Placed s)
    (actor : action.actor = .background)
    (step : system QCap formatToN s.logger action = some (after, events)) (background : Background)
    (alive : s.background ≠ .exited) (rest : background ≠ .poll → after.pc .background = .idle)
    (polls : background = .poll → (after.pc .background).Polls)
    (flushes : (after.pc .background).Flushes) :
    Placed { s with logger := after, background } := by
  have others (other : Party Thread) (different : other ≠ .background) :
      after.pc other = s.logger.pc other :=
    (pc_system_other step (by rw [actor]; exact different)).1
  have callers (thread : Thread) : after.pc (.caller thread) = s.logger.pc (.caller thread) :=
    others (.caller thread) (fun same => by cases same)
  have owner := others .owner (fun same => by cases same)
  refine ⟨fun thread => ?_, fun gone thread => ?_, rest, polls, fun still => ?_, fun still => ?_,
    fun party => ?_, placed.running, fun joined => absurd (placed.joined joined) alive,
    placed.unclosed⟩
  · rw [callers thread]
    exact placed.callers thread
  · rw [callers thread]
    exact placed.returned gone thread
  · exact owner.trans (placed.waiting still)
  · rw [owner]
    exact placed.destroys still
  · by_cases this : party = .background
    · rw [this]
      exact flushes
    · rw [others party this]
      exact placed.flushes party

/-- The owner polls. -/
theorem placed_owner {action : Action (Party Thread) Message} (placed : Placed s)
    (actor : action.actor = .owner)
    (step : system QCap formatToN s.logger action = some (after, events)) (owner : Owner)
    (before : s.owner.Joined) (now : owner.Joined)
    (rest : owner ≠ .polling → after.pc .owner = .idle)
    (polls : owner = .polling → (after.pc .owner).Polls) (flushes : (after.pc .owner).Flushes) :
    Placed { s with logger := after, owner } := by
  have others (other : Party Thread) (different : other ≠ .owner) :
      after.pc other = s.logger.pc other :=
    (pc_system_other step (by rw [actor]; exact different)).1
  have callers (thread : Thread) : after.pc (.caller thread) = s.logger.pc (.caller thread) :=
    others (.caller thread) (fun same => by cases same)
  have background := others .background (fun same => by cases same)
  have destroyed : s.owner ≠ .alive := by
    intro alive
    rw [alive] at before
    exact before
  refine ⟨fun thread => ?_, fun _ thread => ?_, fun still => ?_, fun still => ?_, rest, polls,
    fun party => ?_, fun early => ?_, fun _ => placed.joined before, fun closing => ?_⟩
  · rw [callers thread]
    exact placed.callers thread
  · rw [callers thread]
    exact placed.returned destroyed thread
  · exact background.trans (placed.asleep still)
  · rw [background]
    exact placed.polls still
  · by_cases this : party = .owner
    · rw [this]
      exact flushes
    · rw [others party this]
      exact placed.flushes party
  · cases owner <;> first | exact absurd early id | exact absurd now id
  · cases owner <;> first | exact absurd closing id | exact absurd now id

/-- A call of `poll`. -/
theorem polls_call {party : Party Thread}
    (step : system QCap formatToN logger (.poll party true) = some (after, events)) :
    (after.pc party).Polls ∧ (after.pc party).Flushes ∧ Drained after party := by
  have stepped := steps_of_system step
  cases stepped with
  | poll _ =>
    rw [Drained, State.setPc_pc_self, State.setPc_queue, MPMCQueue.State.setPc_pc_self]
    exact ⟨trivial, rfl, trivial⟩

omit [DecidableEq Thread] [DecidableEq File] in
/-- Nobody polls when the background thread sleeps. -/
theorem alone_background (placed : Placed s) (sleeps : s.background = .sleep) :
    Alone s.logger (.poll .background true : Action (Party Thread) Message) := by
  have notPolling : s.owner ≠ .polling := by
    intro polling
    have exited := placed.joined (by rw [polling]; trivial)
    rw [sleeps] at exited
    cases exited
  intro party
  cases party with
  | caller thread => exact placed.callers thread
  | background =>
    rw [placed.asleep (by rw [sleeps]; exact fun same => by cases same)]
    exact id
  | owner =>
    rw [placed.waiting notPolling]
    exact id

omit [DecidableEq Thread] [DecidableEq File] in
/-- Nobody polls when the background thread has been joined. -/
theorem alone_owner (placed : Placed s) (polls : s.owner = .poll) :
    Alone s.logger (.poll .owner true : Action (Party Thread) Message) := by
  have exited := placed.joined (by rw [polls]; trivial)
  intro party
  cases party with
  | caller thread => exact placed.callers thread
  | background =>
    rw [placed.asleep (by rw [exited]; exact fun same => by cases same)]
    exact id
  | owner =>
    rw [placed.waiting (by rw [polls]; exact fun same => by cases same)]
    exact id

/-- A step of a thread inside the logger, from the life of the logger. -/
theorem enter_cases {action : Action (Party Thread) Message}
    (step : s.enter QCap formatToN action = some (next, events)) :
    ∃ after, system QCap formatToN s.logger action = some (after, events) ∧
      next = { s with logger := after } := by
  obtain ⟨⟨after, given⟩, stepped, same⟩ := Option.map_eq_some_iff.mp step
  cases same
  exact ⟨after, stepped, rfl⟩

theorem kept_log {thread : Thread} {level : LogLevel} {message : Message}
    (documented : Documented formatToN formatted) (modest : Modest formatted (trace ++ events))
    (kept : Kept QCap formatToN formatted bytes outputs s trace) (alive : s.owner = .alive)
    (step : s.enter QCap formatToN (.log (.caller thread) level message) = some (next, events)) :
    Kept QCap formatToN formatted bytes outputs next (trace ++ events) := by
  obtain ⟨after, stepped, rfl⟩ := enter_cases step
  have own : ¬ (after.pc (.caller thread)).Polls := by
    have cases' := steps_of_system stepped
    cases cases' with
    | dropped => exact kept.placed.callers thread
    | log idle =>
      rw [State.setPc_pc_self]
      exact id
  refine ⟨placed_caller kept.placed rfl stepped own (fun gone => absurd alive gone),
    inside_step (.log (.caller thread) level message) documented modest kept.inside trivial
      kept.placed.flushes stepped, ?_, ?_⟩
  · intro polling
    rw [alive] at polling
    cases polling
  · rintro (ended | ended) <;> · rw [alive] at ended; cases ended

theorem kept_callerStep {thread : Thread} {behind : Nat → UInt8}
    (documented : Documented formatToN formatted) (modest : Modest formatted (trace ++ events))
    (kept : Kept QCap formatToN formatted bytes outputs s trace)
    (step : s.enter QCap formatToN (.step (.caller thread) behind) = some (next, events)) :
    Kept QCap formatToN formatted bytes outputs next (trace ++ events) := by
  obtain ⟨after, stepped, rfl⟩ := enter_cases step
  -- a thread that takes a step inside the logger has not returned
  have alive : s.owner = .alive := by
    by_contra gone
    have idle := kept.placed.returned gone thread
    simp only [system, idle] at stepped
    cases stepped
  refine ⟨placed_caller kept.placed rfl stepped
      (not_polls_step (kept.placed.callers thread) stepped) (fun gone => absurd alive gone),
    inside_step (.step (.caller thread) behind) documented modest kept.inside trivial
      kept.placed.flushes stepped, ?_, ?_⟩
  · intro polling
    rw [alive] at polling
    cases polling
  · rintro (ended | ended) <;> · rw [alive] at ended; cases ended

theorem kept_background {behind : Nat → UInt8} (documented : Documented formatToN formatted)
    (modest : Modest formatted (trace ++ events))
    (kept : Kept QCap formatToN formatted bytes outputs s trace)
    (step : s.runBackground QCap formatToN behind = some (next, events)) :
    Kept QCap formatToN formatted bytes outputs next (trace ++ events) := by
  have alive (different : s.background ≠ .exited) :
      ¬ s.owner.Joined := fun joined => different (kept.placed.joined joined)
  have rest (different : s.background ≠ .exited) {logger : State (Party Thread) File RecordSize} :
      (s.owner = .polling → Drained logger .owner) ∧
        (s.owner = .closeLogFiles ∨ s.owner = .gone → logger.queue.head = logger.queue.tail) := by
    have early := alive different
    refine ⟨fun polling => absurd ?_ early, fun ended => absurd ?_ early⟩
    · rw [polling]
      trivial
    · rcases ended with ended | ended <;> rw [ended] <;> trivial
  rw [Life.runBackground] at step
  split at step
  · rename_i tests
    cases step
    obtain ⟨drained, ended⟩ := rest (by rw [tests]; exact fun same => by cases same)
    have idle := kept.placed.asleep (by rw [tests]; exact fun same => by cases same)
    rw [List.append_nil]
    refine ⟨⟨kept.placed.callers, kept.placed.returned, fun _ => idle, fun polls => ?_,
      kept.placed.waiting, kept.placed.destroys, kept.placed.flushes, kept.placed.running,
      fun joined => ?_, kept.placed.unclosed⟩, kept.inside, drained, ended⟩
    · exfalso
      dsimp only at polls
      split at polls <;> cases polls
    · exact absurd joined (alive (by rw [tests]; exact fun same => by cases same))
  · rename_i sleeps
    obtain ⟨⟨entered, given⟩, entering, same⟩ := Option.map_eq_some_iff.mp step
    cases same
    obtain ⟨after, stepped, rfl⟩ := enter_cases entering
    have different : s.background ≠ .exited := by
      rw [sleeps]
      exact fun same => by cases same
    obtain ⟨drained, ended⟩ := rest different
    obtain ⟨polls, flushes, _⟩ := polls_call stepped
    exact ⟨placed_background kept.placed rfl stepped .poll different
        (fun sleeps => absurd rfl sleeps) (fun _ => polls) flushes,
      inside_step _ documented modest kept.inside (alone_background kept.placed sleeps)
        kept.placed.flushes stepped, drained, ended⟩
  · rename_i polling
    obtain ⟨⟨entered, given⟩, entering, same⟩ := Option.map_eq_some_iff.mp step
    cases same
    obtain ⟨after, stepped, rfl⟩ := enter_cases entering
    have different : s.background ≠ .exited := by
      rw [polling]
      exact fun same => by cases same
    obtain ⟨drained, ended⟩ := rest different
    have goes := polls_step (kept.placed.polls polling) stepped
    have flushes := kept.placed.flushes .background
    refine ⟨placed_background kept.placed rfl stepped _ different ?_ ?_ ?_,
      inside_step (.step .background behind) documented modest kept.inside trivial
        kept.placed.flushes stepped, drained, ended⟩
    · intro notPolling
      by_contra busy
      exact notPolling (if_neg busy)
    · intro still
      rcases goes with idle | ⟨polls, _⟩
      · rw [if_pos idle] at still
        cases still
      · exact polls
    · rcases goes with idle | ⟨_, keeps⟩
      · rw [idle]
        trivial
      · exact keeps flushes
  · cases step

/-- A step of the destructor outside the logger. -/
theorem kept_ownerMoves {owner : Owner} {running : Bool}
    (kept : Kept QCap formatToN formatted bytes outputs s trace) (gone : s.owner ≠ .alive)
    (notPolling : s.owner ≠ .polling) (notNow : owner ≠ .polling)
    (early : owner.Early → running = true) (joined : owner.Joined → s.background = .exited)
    (unclosed : ¬ owner.Closing) (ended : owner = .closeLogFiles ∨ owner = .gone →
      s.logger.queue.head = s.logger.queue.tail) :
    Kept QCap formatToN formatted bytes outputs
      { s with bgtRunning := running, owner } trace :=
  ⟨⟨kept.placed.callers, fun _ => kept.placed.returned gone, kept.placed.asleep,
    kept.placed.polls, fun _ => kept.placed.waiting notPolling,
    fun polling => absurd polling notNow, kept.placed.flushes, early, joined, unclosed⟩,
    kept.inside, fun polling => absurd polling notNow, ended⟩

/-- The destructor comes to `closeLogFiles`. Nobody polls, so nothing is in the buffer. -/
theorem kept_closeLogFiles {behind : Nat → UInt8}
    (kept : Kept QCap formatToN formatted bytes outputs s trace)
    (owner : s.owner = .closeLogFiles)
    (step : s.runOwner QCap formatToN behind = some (next, events)) :
    Kept QCap formatToN formatted bytes outputs next (trace ++ events) := by
  simp only [Life.runOwner, owner] at step
  have joined := kept.placed.joined (by rw [owner]; trivial)
  have empty : s.logger.buf = [] := by
    refine kept.inside.carried.resolve_right ?_
    rintro ⟨party, carries⟩
    have polls := polls_of_carries carries
    cases party with
    | caller thread => exact kept.placed.callers thread polls
    | background =>
      rw [kept.placed.asleep (by rw [joined]; decide)] at polls
      exact polls
    | owner =>
      rw [kept.placed.waiting (by rw [owner]; decide)] at polls
      exact polls
  rw [if_pos (Or.inl empty)] at step
  cases step
  rw [List.append_nil]
  exact kept_ownerMoves kept (by rw [owner]; decide) (by rw [owner]; decide) (by decide)
    (fun early => absurd early id) (fun _ => joined) id
    (fun _ => kept.ended (Or.inl owner))

/-- The destructor calls `poll`. -/
theorem kept_poll {behind : Nat → UInt8} (documented : Documented formatToN formatted)
    (modest : Modest formatted (trace ++ events))
    (kept : Kept QCap formatToN formatted bytes outputs s trace)
    (owner : s.owner = .poll) (step : s.runOwner QCap formatToN behind = some (next, events)) :
    Kept QCap formatToN formatted bytes outputs next (trace ++ events) := by
  simp only [Life.runOwner, owner] at step
  obtain ⟨⟨entered, given⟩, entering, same⟩ := Option.map_eq_some_iff.mp step
  cases same
  obtain ⟨after, stepped, rfl⟩ := enter_cases entering
  obtain ⟨polls, flushes, drained⟩ := polls_call stepped
  refine ⟨placed_owner kept.placed rfl stepped .polling (by rw [owner]; trivial) trivial
      (fun still => absurd rfl still) (fun _ => polls) flushes,
    inside_step _ documented modest kept.inside (alone_owner kept.placed owner)
      kept.placed.flushes stepped, fun _ => drained, fun ended => ?_⟩
  rcases ended with same | same <;> cases same

/-- The last poll of the destructor drains the queue. -/
theorem kept_polling {behind : Nat → UInt8} (documented : Documented formatToN formatted)
    (modest : Modest formatted (trace ++ events))
    (kept : Kept QCap formatToN formatted bytes outputs s trace)
    (owner : s.owner = .polling) (step : s.runOwner QCap formatToN behind = some (next, events)) :
    Kept QCap formatToN formatted bytes outputs next (trace ++ events) := by
  simp only [Life.runOwner, owner] at step
  obtain ⟨⟨entered, given⟩, entering, same⟩ := Option.map_eq_some_iff.mp step
  cases same
  obtain ⟨after, stepped, rfl⟩ := enter_cases entering
  have goes := polls_step (kept.placed.destroys owner) stepped
  have flushes := kept.placed.flushes .owner
  have drained : Drained after .owner := by
    obtain ⟨order, read, batches, recorded⟩ := kept.inside.recorded
    have few := modest.of_append.few
    refine drained_step recorded (MPMCQueue.sound_of_reaches kept.inside.told.run few) few
      (kept.placed.destroys owner) (fun other different => recorded.outside ?_)
      (kept.drained owner) stepped
    cases other with
    | caller thread => exact kept.placed.returned (by rw [owner]; decide) thread
    | background =>
      have exited := kept.placed.joined (by rw [owner]; trivial)
      exact kept.placed.asleep (by rw [exited]; decide)
    | owner => exact absurd rfl different
  have inside := inside_step (.step .owner behind) documented modest kept.inside trivial
    kept.placed.flushes stepped
  by_cases idle : after.pc .owner = .idle
  · rw [if_pos idle]
    refine ⟨placed_owner kept.placed rfl stepped .closeLogFiles (by rw [owner]; trivial) trivial
      (fun _ => idle) (fun polling => ?_) (by rw [idle]; trivial), inside,
      fun polling => ?_, fun _ => ?_⟩
    · cases polling
    · cases polling
    · rw [Drained, idle] at drained
      exact drained
  · rw [if_neg idle]
    obtain ⟨polls, keeps⟩ := goes.resolve_left idle
    refine ⟨placed_owner kept.placed rfl stepped .polling (by rw [owner]; trivial) trivial
      (fun still => absurd rfl still) (fun _ => polls) (keeps flushes), inside,
      fun _ => drained, fun ended => ?_⟩
    rcases ended with same | same <;> cases same

theorem kept_owner {behind : Nat → UInt8} (documented : Documented formatToN formatted)
    (modest : Modest formatted (trace ++ events))
    (kept : Kept QCap formatToN formatted bytes outputs s trace)
    (step : s.runOwner QCap formatToN behind = some (next, events)) :
    Kept QCap formatToN formatted bytes outputs next (trace ++ events) := by
  cases owner : s.owner
  case closeLogFiles => exact kept_closeLogFiles kept owner step
  case poll => exact kept_poll documented modest kept owner step
  case polling => exact kept_polling documented modest kept owner step
  all_goals simp only [Life.runOwner, owner] at step
  case alive => cases step
  case gone => cases step
  case closePoll => exact absurd (by rw [owner]; trivial) kept.placed.unclosed
  case closePolling => exact absurd (by rw [owner]; trivial) kept.placed.unclosed
  case close => exact absurd (by rw [owner]; trivial) kept.placed.unclosed
  case testRunning =>
    cases step
    have running := kept.placed.running (by rw [owner]; trivial)
    rw [List.append_nil, if_pos running]
    exact kept_ownerMoves kept (by rw [owner]; decide) (by rw [owner]; decide) (by decide)
      (fun _ => running) (fun joined => absurd joined id) id
      (fun ended => absurd ended (by decide))
  case clearRunning =>
    cases step
    rw [List.append_nil]
    exact kept_ownerMoves kept (by rw [owner]; decide) (by rw [owner]; decide) (by decide)
      (fun early => absurd early id) (fun joined => absurd joined id) id
      (fun ended => absurd ended (by decide))
  case join =>
    split at step
    · rename_i exited
      cases step
      rw [List.append_nil]
      exact kept_ownerMoves kept (by rw [owner]; decide) (by rw [owner]; decide) (by decide)
        (fun early => absurd early id) (fun _ => exited) id (fun ended => absurd ended (by decide))
    · cases step

/-- Every step in the life of a logger keeps the invariant. -/
theorem kept_step {action : LifeAction Thread Message}
    (documented : Documented formatToN formatted) (modest : Modest formatted (trace ++ events))
    (kept : Kept QCap formatToN formatted bytes outputs s trace) (proper : Proper s action)
    (step : life QCap formatToN s action = some (next, events)) :
    Kept QCap formatToN formatted bytes outputs next (trace ++ events) := by
  cases action with
  | log thread level message => exact kept_log documented modest kept proper step
  | step thread behind => exact kept_callerStep documented modest kept step
  | background behind => exact kept_background documented modest kept step
  | owner behind => exact kept_owner documented modest kept step
  | destroy =>
    simp only [life] at step
    split at step
    · rename_i alive
      cases step
      rw [List.append_nil]
      have running := kept.placed.running (by rw [alive]; trivial)
      refine ⟨⟨kept.placed.callers, fun _ => proper, kept.placed.asleep, kept.placed.polls,
        fun _ => kept.placed.waiting (by rw [alive]; decide), fun polling => ?_,
        kept.placed.flushes, fun _ => running, fun joined => absurd joined id, id⟩, kept.inside,
        fun polling => ?_, fun ended => ?_⟩
      · cases polling
      · cases polling
      · rcases ended with same | same <;> cases same
    · cases step

theorem kept_of_reachesBy {logLevel : LogLevel} (documented : Documented formatToN formatted)
    (run : Transitions.ReachesBy Proper (life QCap formatToN)
      (born bytes logLevel outputs : Life Thread File RecordSize) s trace)
    (modest : Modest formatted trace) :
    Kept QCap formatToN formatted bytes outputs s trace := by
  refine run.invariant (fun s trace => Modest formatted trace →
    Kept QCap formatToN formatted bytes outputs s trace) (fun _ => kept_born logLevel) ?_ modest
  exact fun s trace action next events _ kept proper step modest =>
    kept_step documented modest (kept modest.of_append) proper step

/-- The records are in the files in the order of their tickets. -/
structure WrittenInOrder (formatted : Message → List UInt8) (outputs : List File)
    (s : Life Thread File RecordSize) (trace : List (Event (Party Thread) RecordSize Message))
    (order : List (Party Thread × Message)) : Prop where
  /-- The record at each place is by the thread that claimed the ticket of that number. -/
  tickets : MPMCQueue.claimants (queueTrace trace) =
    order.mapIdx fun ticket record => (record.1, ticket)
  /-- The records of each thread are what it has logged, each once and in the same order. -/
  threads : ∀ party, messagesOf party order = loggedBy party trace
  /-- A file holds the texts of the records, and nothing else. -/
  files : ∀ file, outputs.count file = 1 → s.logger.files file = texts formatted order
  /-- A file that is attached several times gets every flush as often. -/
  flushes : ∃ batches, batches.flatten = texts formatted order ∧
    ∀ file, s.logger.files file = spread (outputs.count file) batches

/-- When the destructor has returned, everything that was logged is in the files. -/
theorem writtenInOrder_of_reachesBy {logLevel : LogLevel}
    (documented : Documented formatToN formatted)
    (run : Transitions.ReachesBy Proper (life QCap formatToN)
      (born bytes logLevel outputs : Life Thread File RecordSize) s trace)
    (modest : Modest formatted trace) (gone : s.owner = .gone) :
    ∃ order, WrittenInOrder formatted outputs s trace order := by
  have kept := kept_of_reachesBy documented run modest
  obtain ⟨order, read, batches, recorded⟩ := kept.inside.recorded
  have joined := kept.placed.joined (by rw [gone]; trivial)
  have idle (party : Party Thread) : s.logger.pc party = .idle := by
    cases party with
    | caller thread => exact kept.placed.returned (by rw [gone]; decide) thread
    | background => exact kept.placed.asleep (by rw [joined]; decide)
    | owner => exact kept.placed.waiting (by rw [gone]; decide)
  have empty : s.logger.buf = [] := by
    refine kept.inside.carried.resolve_right ?_
    rintro ⟨party, carries⟩
    rw [idle party] at carries
    exact carries
  have all : read = order.length := by
    rw [← recorded.head, kept.ended (Or.inr gone)]
    refine (recorded.rested fun party consuming => ?_).symm
    rw [idle party] at consuming
    exact consuming
  have text : batches.flatten = texts formatted order := by
    have written := recorded.text
    rwa [empty, List.append_nil, all, List.take_length] at written
  have files (file : File) : s.logger.files file = spread (outputs.count file) batches := by
    rw [recorded.files, kept.inside.attached]
  refine ⟨order, recorded.claimed, fun party => ?_, fun file once => ?_, batches, text, files⟩
  · obtain ⟨pending, stood, logged⟩ := recorded.stands party
    rw [idle party] at stood
    generalize s.logger.queue.pc party = pc at stood
    cases stood
    rw [logged, List.append_nil]
  · rw [files, once, spread_one, text]

section Example

/-- Two messages, one of two bytes and one of one byte. -/
def shortText : Bool → Text
  | true => twoBytes
  | false => ⟨[33], by decide⟩

def shortToN : FormatToN Bool := fun out n message => textToN out n (shortText message)

/-- Both messages are logged through a queue with one slot: the background thread polls between
them, and the destructor after them. -/
def shortLife : List (LifeAction Unit Bool) :=
  let behind : Nat → UInt8 := fun _ => 0
  [.log () .info true] ++ List.replicate 4 (.step () behind) ++
    List.replicate 12 (.background behind) ++
    [.log () .warn false] ++ List.replicate 4 (.step () behind) ++
    [.destroy, .owner behind, .owner behind, .background behind] ++
    List.replicate 13 (.owner behind)

instance (s : Life Unit Unit 2) (action : LifeAction Unit Bool) : Decidable (Proper s action) :=
  match action with
  | .log _ _ _ => inferInstanceAs (Decidable (s.owner = .alive))
  | .destroy => decidable_of_iff (s.logger.pc (.caller ()) = .idle)
      ⟨fun idle _ => idle, fun idle => idle ()⟩
  | .step _ _ => inferInstanceAs (Decidable True)
  | .background _ => inferInstanceAs (Decidable True)
  | .owner _ => inferInstanceAs (Decidable True)

theorem writtenInOrder_shortLife : ∃ s trace order,
    Transitions.executeBy Proper (life MPMCQueue.oneSlot shortToN)
      (born (fun _ => ⟨#v[0, 0], 0⟩) .debug [()] : Life Unit Unit 2) shortLife =
        some (s, trace) ∧
    WrittenInOrder (fun message => (shortText message).val) [()] s trace order := by
  have traced : (Transitions.executeBy Proper (life MPMCQueue.oneSlot shortToN)
      (born (fun _ => ⟨#v[0, 0], 0⟩) .debug [()] : Life Unit Unit 2) shortLife).map
        (fun reached => (reached.1.owner, (MPMCQueue.claims .head (queueTrace reached.2)).length,
          (MPMCQueue.claims .tail (queueTrace reached.2)).length)) = some (.gone, 2, 2) := by
    decide +kernel
  have documented : Documented shortToN fun message => (shortText message).val :=
    ⟨fun out n message i less => documented_textToN.written out n (shortText message) i less,
      fun out n message => documented_textToN.size out n (shortText message)⟩
  obtain ⟨⟨s, trace⟩, executed, same⟩ := Option.map_eq_some_iff.mp traced
  obtain ⟨gone, claims⟩ := Prod.mk.inj same
  obtain ⟨head, tail⟩ := Prod.mk.inj claims
  have run := Transitions.reachesBy_of_executeBy .start executed
  rw [List.nil_append] at run
  have few : MPMCQueue.FewTickets (queueTrace trace) := by
    intro side
    cases side
    · rw [head]
      decide
    · rw [tail]
      decide
  have fits : ∀ thread message, .logged thread message ∈ trace →
      (shortText message).val.length ≤ 2 := by
    intro thread message _
    cases message <;> decide
  obtain ⟨order, written⟩ :=
    writtenInOrder_of_reachesBy documented run ⟨few, fits⟩ gone
  exact ⟨s, trace, order, executed, written⟩

end Example

end Life

end Logger

end Sheep
