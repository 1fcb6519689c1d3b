/-
This file finds out what the logger writes for a message. `format_to_n` returns
the size of the whole message, and `MakeRecordImpl` stores it as the size of the
record, also where it is larger than the array. The functor of `poll` then copies
what lies behind the array.
-/

import Sheep.Logger
import Sheep.QueueDelivery

namespace Sheep

namespace MPMCQueue

/-! ### What producers write -/

section Writes

variable {Thread Element : Type}

/-- What a producer will write into the slots of its tickets. -/
def AfterPush.writes : AfterPush Element → List (Element → Element)
  | .bulk rest => rest
  | .returnTrue => []

def Pc.writes : Pc Element → List (Element → Element)
  | .fetchHead writes => writes
  | .awaitFree _ write rest => write :: rest
  | .loadHead write => [write]
  | .testFree _ write => [write]
  | .casHead _ write => [write]
  | .reloadHead _ write => [write]
  | .construct _ write after => write :: after.writes
  | .publish _ after => after.writes
  | _ => []

theorem writes_pushNext (thread : Thread) (ticket : UInt64) (after : AfterPush Element) :
    ((after.next thread ticket).1).writes = after.writes := by
  cases after with
  | returnTrue => rfl
  | bulk rest => cases rest <;> rfl

theorem writes_popNext (thread : Thread) (ticket : UInt64) (after : AfterPop Element) :
    ((after.next thread ticket).1).writes = [] := by
  cases after <;> rfl

variable [DecidableEq Thread] {capacity : Capacity} {s next : State Thread Element}
  {thread : Thread} {events : List (Event Thread Element)}

/-- A producer writes what it was to write, and nothing is added to that. -/
theorem writes_advance (step : advance capacity s thread (s.pc thread) = some (next, events)) :
    (next.pc thread).writes ⊆ (s.pc thread).writes ∧
      ∀ user ticket element, .constructed user ticket element ∈ events → user = thread ∧
        ∃ write ∈ (s.pc thread).writes, ∃ bytes, element = write bytes := by
  have silent (none : ∀ event ∈ events, event.uses = none) : ∀ user ticket element,
      .constructed user ticket element ∈ events → user = thread ∧
        ∃ write ∈ (s.pc thread).writes, ∃ bytes, element = write bytes :=
    fun user ticket element member => nomatch none _ member
  cases advances_of_advance step with
  | fetchHead pc =>
    refine ⟨?_, silent (List.forall_mem_cons.mpr ⟨rfl, uses_pushNext⟩)⟩
    rw [State.setPc_pc_self, writes_pushNext, pc]
    exact fun _ => id
  | publish pc =>
    refine ⟨?_, silent uses_pushNext⟩
    rw [State.setPc_pc_self, writes_pushNext, pc]
    exact fun _ => id
  | release pc =>
    refine ⟨?_, silent uses_popNext⟩
    rw [State.setPc_pc_self, writes_popNext]
    exact List.nil_subset _
  | @construct ticket write after pc =>
    rw [State.setPc_pc_self, pc]
    refine ⟨List.subset_cons_self _ _, fun user ticket' element member => ?_⟩
    cases List.mem_singleton.mp member
    exact ⟨rfl, write, List.mem_cons_self, _, rfl⟩
  | read pc =>
    rw [State.setPc_pc_self]
    refine ⟨List.nil_subset _, fun user ticket' element member => ?_⟩
    cases List.mem_singleton.mp member
  | spinFree pc | spinFull pc => exact ⟨fun _ => id, silent (List.forall_mem_nil _)⟩
  -- the remaining steps construct nothing, and keep what is to be written or drop it
  | enterFree pc | loadHead pc | matchFree pc | missFree pc | loseHead pc | retryHead pc =>
    refine ⟨?_, silent (List.forall_mem_nil _)⟩
    rw [State.setPc_pc_self, pc]
    exact fun _ => id
  | winHead pc =>
    refine ⟨?_, silent (List.forall_mem_singleton.mpr rfl)⟩
    rw [State.setPc_pc_self, pc]
    exact fun _ => id
  | giveUpHead | fetchTail | winTail | giveUpTail | destroy =>
    refine ⟨?_, silent (List.forall_mem_singleton.mpr rfl)⟩
    rw [State.setPc_pc_self]
    exact List.nil_subset _
  | _ =>
    refine ⟨?_, silent (List.forall_mem_nil _)⟩
    rw [State.setPc_pc_self]
    exact List.nil_subset _

end Writes

end MPMCQueue

namespace Logger

variable {RecordSize : Nat} {Message : Type}

/-! ### One record -/

/-- What the documentation of `fmt::format_to_n` says: the first `n` characters of the message are
written, and the size of the whole message is returned. -/
structure Documented (formatToN : FormatToN Message) (formatted : Message → List UInt8) : Prop where
  written : ∀ {length : Nat} (out : Vector UInt8 length) (n : Nat) (message : Message) (i : Nat),
    i < n → i < length → i < (formatted message).length →
    (formatToN out n message).1[i]? = (formatted message)[i]?
  size : ∀ {length : Nat} (out : Vector UInt8 length) (n : Nat) (message : Message),
    (formatToN out n message).2.toNat = (formatted message).length

/-- For a record nothing but the message is written: as much of it as fits, read from inside the
array. -/
def Faithful (formatted : List UInt8) (record : FixedSizeRecord RecordSize)
    (behind : Nat → UInt8) : Prop :=
  record.copied behind = formatted.take RecordSize ∧ record.size.toNat ≤ RecordSize

variable {formatToN : FormatToN Message} {formatted : Message → List UInt8}

theorem size_makeRecord (documented : Documented formatToN formatted) (message : Message)
    (out : FixedSizeRecord RecordSize) :
    (makeRecord formatToN message out).size.toNat = (formatted message).length :=
  documented.size out.data RecordSize message

/-- What fits of a message is copied from the array, and for the rest what lies behind it. -/
theorem copied_makeRecord (documented : Documented formatToN formatted) (message : Message)
    (out : FixedSizeRecord RecordSize) (behind : Nat → UInt8) :
    (makeRecord formatToN message out).copied behind = (formatted message).take RecordSize ++
      (List.range ((formatted message).length - RecordSize)).map
        fun i => behind (RecordSize + i) := by
  have parts : (formatted message).length =
      min RecordSize (formatted message).length + ((formatted message).length - RecordSize) := by
    omega
  rw [FixedSizeRecord.copied, size_makeRecord documented]
  nth_rewrite 1 [parts]
  rw [List.range_add, List.map_append, List.map_map]
  congr 1
  · refine List.ext_getElem? fun i => ?_
    rw [List.getElem?_map]
    by_cases inside : i < min RecordSize (formatted message).length
    · have within : i < RecordSize := by omega
      have written := documented.written out.data RecordSize message i within within (by omega)
      rw [List.getElem?_range inside, Option.map_some, FixedSizeRecord.byte, dif_pos within,
        List.getElem?_take_of_lt within, ← written]
      exact (Vector.getElem?_eq_getElem within).symm
    · rw [List.getElem?_eq_none (by rw [List.length_range]; omega), Option.map_none,
        List.getElem?_eq_none (by rw [List.length_take]; omega)]
  · refine List.map_congr_left fun i member => ?_
    have long := List.mem_range.mp member
    rw [Function.comp_apply, FixedSizeRecord.byte, dif_neg (by omega),
      Nat.min_eq_left (by omega)]

/-- The record of a message is faithful exactly when the message fits. -/
theorem faithful_makeRecord (documented : Documented formatToN formatted) (message : Message)
    (out : FixedSizeRecord RecordSize) (behind : Nat → UInt8) :
    Faithful (formatted message) (makeRecord formatToN message out) behind ↔
      (formatted message).length ≤ RecordSize := by
  rw [Faithful, size_makeRecord documented]
  refine ⟨fun faithful => faithful.2, fun fits => ⟨?_, fits⟩⟩
  rw [copied_makeRecord documented, Nat.sub_eq_zero_of_le fits, List.range_zero, List.map_nil,
    List.append_nil]

/-! ### Runs of the logger -/

section Runs

variable {Thread File : Type}

/-- The events of the queue in a run of the logger. -/
def Event.queued : Event Thread RecordSize Message →
    Option (MPMCQueue.Event Thread (FixedSizeRecord RecordSize))
  | .queue event => some event
  | _ => none

def queueTrace (trace : List (Event Thread RecordSize Message)) :
    List (MPMCQueue.Event Thread (FixedSizeRecord RecordSize)) :=
  trace.filterMap Event.queued

theorem queueTrace_append (trace events : List (Event Thread RecordSize Message)) :
    queueTrace (trace ++ events) = queueTrace trace ++ queueTrace events :=
  List.filterMap_append

theorem queueTrace_map (events : List (MPMCQueue.Event Thread (FixedSizeRecord RecordSize))) :
    queueTrace (events.map .queue : List (Event Thread RecordSize Message)) = events := by
  rw [queueTrace, List.filterMap_map]
  exact List.filterMap_some

theorem mem_queueTrace {trace : List (Event Thread RecordSize Message)}
    {event : MPMCQueue.Event Thread (FixedSizeRecord RecordSize)} :
    event ∈ queueTrace trace ↔ .queue event ∈ trace := by
  rw [queueTrace, List.mem_filterMap]
  constructor
  · rintro ⟨given, member, same⟩
    cases given <;> cases same
    exact member
  · exact fun member => ⟨_, member, rfl⟩

theorem mem_map_queue {event : MPMCQueue.Event Thread (FixedSizeRecord RecordSize)}
    {queued : List (MPMCQueue.Event Thread (FixedSizeRecord RecordSize))}
    (member : .queue event ∈ (queued.map .queue : List (Event Thread RecordSize Message))) :
    event ∈ queued := by
  obtain ⟨given, member, same⟩ := List.mem_map.mp member
  cases same
  exact member

/-- Only reads append to the buffer, and what they append is copied from the record. -/
theorem mem_appends {behind : Nat → UInt8} {ticket : UInt64} {bytes : List UInt8}
    {events : List (MPMCQueue.Event Thread (FixedSizeRecord RecordSize))}
    (member : .appended ticket bytes ∈
      (appends behind events : List (Event Thread RecordSize Message))) :
    ∃ consumer record, .read consumer ticket record ∈ events ∧ bytes = record.copied behind := by
  induction events using appends.induct with
  | case1 => cases member
  | case2 consumer i record events inductionHypothesis =>
    rcases List.mem_cons.mp member with same | later
    · cases same
      exact ⟨consumer, record, List.mem_cons_self, rfl⟩
    · obtain ⟨consumer', record', member', same⟩ := inductionHypothesis later
      exact ⟨consumer', record', List.mem_cons_of_mem _ member', same⟩
  | case3 event events notRead inductionHypothesis =>
    rw [appends] at member
    · obtain ⟨consumer, record, member', same⟩ := inductionHypothesis member
      exact ⟨consumer, record, List.mem_cons_of_mem _ member', same⟩
    · exact notRead

theorem queueTrace_appends (behind : Nat → UInt8)
    (events : List (MPMCQueue.Event Thread (FixedSizeRecord RecordSize))) :
    queueTrace (appends behind events : List (Event Thread RecordSize Message)) = [] := by
  refine List.filterMap_eq_nil_iff.mpr fun event member => ?_
  induction events using appends.induct with
  | case1 => cases member
  | case2 consumer i record events inductionHypothesis =>
    rcases List.mem_cons.mp member with same | later
    · rw [same]
      rfl
    · exact inductionHypothesis later
  | case3 event events notRead inductionHypothesis =>
    rw [appends] at member
    · exact inductionHypothesis member
    · exact notRead

theorem writeFile_queue [DecidableEq File] (s : State Thread File RecordSize) :
    s.writeFile.queue = s.queue := by
  rw [State.writeFile]
  split <;> rfl

variable [DecidableEq Thread] {QCap : MPMCQueue.Capacity}
  {s next : State Thread File RecordSize} {trace events : List (Event Thread RecordSize Message)}

theorem queueStep_queue {action : MPMCQueue.Action Thread (FixedSizeRecord RecordSize)}
    {queued : List (MPMCQueue.Event Thread (FixedSizeRecord RecordSize))}
    (step : queueStep QCap s action = some (next, queued)) :
    MPMCQueue.system QCap id s.queue action = some (next.queue, queued) := by
  obtain ⟨⟨queue, given⟩, stepped, same⟩ := Option.map_eq_some_iff.mp step
  cases same
  exact stepped

/-- What a step of the logger does to the queue. -/
inductive Happens (QCap : MPMCQueue.Capacity) (formatToN : FormatToN Message)
    (s next : State Thread File RecordSize) : List (Event Thread RecordSize Message) → Prop
  | quiet : next.queue = s.queue → Happens QCap formatToN s next []
  | log {thread : Thread} {message : Message}
      {queued : List (MPMCQueue.Event Thread (FixedSizeRecord RecordSize))} :
      MPMCQueue.system QCap id s.queue
        (.call thread (.emplaceWith (makeRecord formatToN message))) = some (next.queue, queued) →
      Happens QCap formatToN s next (.logged thread message :: queued.map .queue)
  | poll {thread : Thread}
      {queued : List (MPMCQueue.Event Thread (FixedSizeRecord RecordSize))} :
      MPMCQueue.system QCap id s.queue (.call thread (.tryConsumeAll id)) =
        some (next.queue, queued) →
      Happens QCap formatToN s next (queued.map .queue)
  | step {thread : Thread} {appended : List (Event Thread RecordSize Message)}
      {queued : List (MPMCQueue.Event Thread (FixedSizeRecord RecordSize))} :
      MPMCQueue.system QCap id s.queue (.step thread) = some (next.queue, queued) →
      appended = [] ∨ (∃ behind, appended = appends behind queued) →
      Happens QCap formatToN s next (queued.map .queue ++ appended)

/-- What is known of a run: it is a run of the queue, its producers write the records of messages
that were logged, and what is appended is copied from records that were read. -/
structure Told (QCap : MPMCQueue.Capacity) (formatToN : FormatToN Message)
    (bytes : UInt64 → FixedSizeRecord RecordSize) (s : State Thread File RecordSize)
    (trace : List (Event Thread RecordSize Message)) : Prop where
  run : Transitions.Reaches (MPMCQueue.system QCap id) (MPMCQueue.start bytes) s.queue
    (queueTrace trace)
  writes : ∀ thread, ∀ write ∈ (s.queue.pc thread).writes, ∃ message,
    write = makeRecord formatToN message ∧ .logged thread message ∈ trace
  constructed : ∀ thread ticket record, .queue (.constructed thread ticket record) ∈ trace →
    ∃ message out, record = makeRecord formatToN message out ∧ .logged thread message ∈ trace
  appended : ∀ ticket appended, .appended ticket appended ∈ trace → ∃ consumer record behind,
    .queue (.read consumer ticket record) ∈ trace ∧ appended = record.copied behind

theorem told_start (bytes : UInt64 → FixedSizeRecord RecordSize) (logLevel : LogLevel)
    (stdout : File) :
    Told QCap formatToN bytes (start bytes logLevel stdout : State Thread File RecordSize) [] :=
  ⟨.start, fun _ _ member => absurd member List.not_mem_nil,
    fun _ _ _ member => absurd member List.not_mem_nil,
    fun _ _ member => absurd member List.not_mem_nil⟩

/-- A call of an operation of the queue. What the caller will write are records of messages that
are being logged. -/
theorem Told.call {bytes : UInt64 → FixedSizeRecord RecordSize} {thread : Thread}
    {op : MPMCQueue.Op (FixedSizeRecord RecordSize)}
    {queued : List (MPMCQueue.Event Thread (FixedSizeRecord RecordSize))}
    (logged : List (Event Thread RecordSize Message)) (told : Told QCap formatToN bytes s trace)
    (step : MPMCQueue.system QCap id s.queue (.call thread op) = some (next.queue, queued))
    (events : ∀ event ∈ logged, ∃ message, event = .logged thread message)
    (writes : ∀ write ∈ (op.entry id).writes, ∃ message, write = makeRecord formatToN message ∧
      .logged thread message ∈ logged) :
    Told QCap formatToN bytes next (trace ++ (logged ++ queued.map .queue)) := by
  have silent : queueTrace logged = [] := List.filterMap_eq_nil_iff.mpr fun event member => by
    obtain ⟨message, rfl⟩ := events event member
    rfl
  have called : next.queue = s.queue.setPc thread (op.entry id) ∧ queued = [.called thread op] := by
    rw [MPMCQueue.system] at step
    split at step
    · obtain ⟨queue, events⟩ := Prod.mk.inj (Option.some.inj step)
      exact ⟨queue.symm, events.symm⟩
    · cases step
  refine ⟨?_, fun other write member => ?_, fun user ticket record member => ?_,
    fun ticket appended member => ?_⟩
  · rw [queueTrace_append, queueTrace_append, silent, queueTrace_map]
    exact .next told.run step
  · rw [called.1] at member
    by_cases this : other = thread
    · subst this
      rw [MPMCQueue.State.setPc_pc_self] at member
      obtain ⟨message, same, logged⟩ := writes write member
      exact ⟨message, same, List.mem_append_right _ (List.mem_append_left _ logged)⟩
    · rw [MPMCQueue.State.setPc_pc_other _ _ _ this] at member
      obtain ⟨message, same, logged⟩ := told.writes other write member
      exact ⟨message, same, List.mem_append_left _ logged⟩
  · rcases List.mem_append.mp member with old | new
    · obtain ⟨message, out, same, logged⟩ := told.constructed user ticket record old
      exact ⟨message, out, same, List.mem_append_left _ logged⟩
    · rcases List.mem_append.mp new with new | new
      · obtain ⟨message, same⟩ := events _ new
        cases same
      · have inside := mem_map_queue new
        rw [called.2] at inside
        cases List.mem_singleton.mp inside
  · rcases List.mem_append.mp member with old | new
    · obtain ⟨consumer, record, behind, read, same⟩ := told.appended ticket appended old
      exact ⟨consumer, record, behind, List.mem_append_left _ read, same⟩
    · rcases List.mem_append.mp new with new | new
      · obtain ⟨message, same⟩ := events _ new
        cases same
      · obtain ⟨_, _, same⟩ := List.mem_map.mp new
        cases same

/-- A step of the queue inside an operation. -/
theorem Told.step {bytes : UInt64 → FixedSizeRecord RecordSize} {thread : Thread}
    {queued : List (MPMCQueue.Event Thread (FixedSizeRecord RecordSize))}
    {appended : List (Event Thread RecordSize Message)} (told : Told QCap formatToN bytes s trace)
    (step : MPMCQueue.system QCap id s.queue (.step thread) = some (next.queue, queued))
    (copied : appended = [] ∨ ∃ behind, appended = appends behind queued) :
    Told QCap formatToN bytes next (trace ++ (queued.map .queue ++ appended)) := by
  have silent : queueTrace appended = [] := by
    rcases copied with rfl | ⟨behind, rfl⟩
    · rfl
    · exact queueTrace_appends behind queued
  obtain ⟨kept, built⟩ := MPMCQueue.writes_advance step
  have new_appended {event : Event Thread RecordSize Message} (member : event ∈ appended) :
      ∃ behind, event ∈ (appends behind queued : List (Event Thread RecordSize Message)) := by
    rcases copied with rfl | ⟨behind, rfl⟩
    · cases member
    · exact ⟨behind, member⟩
  refine ⟨?_, fun other write member => ?_, fun user ticket record member => ?_,
    fun ticket bytes' member => ?_⟩
  · rw [queueTrace_append, queueTrace_append, silent, queueTrace_map, List.append_nil]
    exact .next told.run step
  · have before : write ∈ (s.queue.pc other).writes := by
      by_cases this : other = thread
      · subst this
        exact kept member
      · rw [MPMCQueue.pc_advance_other step this] at member
        exact member
    obtain ⟨message, same, logged⟩ := told.writes other write before
    exact ⟨message, same, List.mem_append_left _ logged⟩
  · rcases List.mem_append.mp member with old | new
    · obtain ⟨message, out, same, logged⟩ := told.constructed user ticket record old
      exact ⟨message, out, same, List.mem_append_left _ logged⟩
    · rcases List.mem_append.mp new with new | new
      · obtain ⟨rfl, write, inside, out, rfl⟩ := built user ticket record (mem_map_queue new)
        obtain ⟨message, rfl, logged⟩ := told.writes user write inside
        exact ⟨message, out, rfl, List.mem_append_left _ logged⟩
      · obtain ⟨behind, inside⟩ := new_appended new
        have member := mem_queueTrace.mpr inside
        rw [queueTrace_appends] at member
        cases member
  · rcases List.mem_append.mp member with old | new
    · obtain ⟨consumer, record, behind, read, same⟩ := told.appended ticket bytes' old
      exact ⟨consumer, record, behind, List.mem_append_left _ read, same⟩
    · rcases List.mem_append.mp new with new | new
      · obtain ⟨_, _, same⟩ := List.mem_map.mp new
        cases same
      · obtain ⟨behind, inside⟩ := new_appended new
        obtain ⟨consumer, record, read, same⟩ := mem_appends inside
        exact ⟨consumer, record, behind,
          List.mem_append_right _ (List.mem_append_left _ (List.mem_map_of_mem read)), same⟩

theorem told_of_happens {bytes : UInt64 → FixedSizeRecord RecordSize}
    (told : Told QCap formatToN bytes s trace) (happens : Happens QCap formatToN s next events) :
    Told QCap formatToN bytes next (trace ++ events) := by
  cases happens with
  | quiet same =>
    rw [List.append_nil]
    exact ⟨same ▸ told.run, same ▸ told.writes, told.constructed, told.appended⟩
  | @log thread message queued step =>
    refine told.call [.logged thread message] step ?_ ?_
    · exact List.forall_mem_singleton.mpr ⟨message, rfl⟩
    · exact List.forall_mem_singleton.mpr ⟨message, rfl, List.mem_singleton_self _⟩
  | @poll thread queued step =>
    exact told.call [] step (List.forall_mem_nil _) (List.forall_mem_nil _)
  | step step copied => exact told.step step copied

variable [DecidableEq File]

theorem happens_of_step {action : Action Thread Message}
    (step : system QCap formatToN s action = some (next, events)) :
    Happens QCap formatToN s next events := by
  cases action with
  | log thread level message =>
    simp only [system] at step
    split at step
    · obtain ⟨⟨middle, queued⟩, stepped, same⟩ := Option.map_eq_some_iff.mp step
      cases same
      have onQueue := queueStep_queue stepped
      exact .log onQueue
    · split at step
      · cases step
        exact .quiet rfl
      · cases step
  | poll thread flushFile =>
    simp only [system] at step
    split at step
    · obtain ⟨⟨middle, queued⟩, stepped, same⟩ := Option.map_eq_some_iff.mp step
      cases same
      have onQueue := queueStep_queue stepped
      exact .poll onQueue
    · cases step
  | step thread behind =>
    simp only [system] at step
    cases pc : s.pc thread <;> rw [pc] at step <;> simp only at step
    case idle => cases step
    case emplaceWith =>
      obtain ⟨⟨middle, queued⟩, stepped, same⟩ := Option.map_eq_some_iff.mp step
      cases same
      have onQueue := queueStep_queue stepped
      rw [← List.append_nil (List.map _ _)]
      exact .step onQueue (Or.inl rfl)
    case tryConsumeAll flushFile =>
      obtain ⟨⟨middle, queued⟩, stepped, same⟩ := Option.map_eq_some_iff.mp step
      cases same
      have onQueue := queueStep_queue stepped
      exact .step onQueue (Or.inr ⟨behind, rfl⟩)
    case testThreshold flushFile =>
      cases step
      refine .quiet ?_
      split
      · exact writeFile_queue s
      · rfl
    case testFlush flushFile =>
      cases step
      refine .quiet ?_
      split
      · exact writeFile_queue s
      · rfl

theorem told_of_reaches {bytes : UInt64 → FixedSizeRecord RecordSize} {logLevel : LogLevel}
    {stdout : File}
    (run : Transitions.Reaches (system QCap formatToN) (start bytes logLevel stdout) s trace) :
    Told QCap formatToN bytes s trace :=
  run.invariant (Told QCap formatToN bytes) (told_start bytes logLevel stdout)
    fun _ _ _ _ _ _ told step => told_of_happens told (happens_of_step step)

/-- What is appended for a record was copied from the record of a message that was logged. -/
theorem logged_of_appended {bytes : UInt64 → FixedSizeRecord RecordSize} {logLevel : LogLevel}
    {stdout : File}
    (run : Transitions.Reaches (system QCap formatToN) (start bytes logLevel stdout) s trace)
    (few : MPMCQueue.FewTickets (queueTrace trace)) {ticket : UInt64} {appended : List UInt8}
    (member : .appended ticket appended ∈ trace) : ∃ thread message out behind,
      .logged thread message ∈ trace ∧
      .queue (.constructed thread ticket (makeRecord formatToN message out)) ∈ trace ∧
      appended = (makeRecord formatToN message out).copied behind := by
  have told := told_of_reaches run
  obtain ⟨consumer, record, behind, read, same⟩ := told.appended ticket appended member
  obtain ⟨before, after, split⟩ := List.append_of_mem (mem_queueTrace.mpr read)
  obtain ⟨_, producer, _, built⟩ := MPMCQueue.delivered_of_reaches told.run few split
  have constructed : .queue (.constructed producer ticket record) ∈ trace := by
    refine mem_queueTrace.mp ?_
    rw [split]
    exact List.mem_append_left _ built
  obtain ⟨message, out, rfl, logged⟩ := told.constructed producer ticket record constructed
  exact ⟨producer, message, out, behind, logged, constructed, same⟩

end Runs

/-! ### Messages that fit -/

/-- The logger writes nothing but messages, for each record on its own and in whole runs. -/
structure WritesMessages (formatToN : FormatToN Message) (formatted : Message → List UInt8)
    (RecordSize : Nat) : Prop where
  /-- A record that is filled in a slot, whatever the slot holds, is faithful iff its message
  fits. -/
  record : ∀ (slot : Slot (FixedSizeRecord RecordSize)) ticket message behind,
    Faithful (formatted message) (slot.construct ticket (makeRecord formatToN message)).data
      behind ↔ (formatted message).length ≤ RecordSize
  /-- What a longer message leaves in the buffer. -/
  exposed : ∀ (slot : Slot (FixedSizeRecord RecordSize)) ticket message behind,
    (slot.construct ticket (makeRecord formatToN message)).data.copied behind =
      (formatted message).take RecordSize ++
        (List.range ((formatted message).length - RecordSize)).map
          fun i => behind (RecordSize + i)
  /-- Through the queue, every record that `poll` copies is the one that `log` made of a message. -/
  run : ∀ (Thread File : Type) [DecidableEq Thread] [DecidableEq File] QCap bytes logLevel
    (stdout : File) (s : State Thread File RecordSize) trace,
    Transitions.Reaches (system QCap formatToN) (start bytes logLevel stdout) s trace →
    MPMCQueue.FewTickets (queueTrace trace) →
    ∀ ticket appended, .appended ticket appended ∈ trace → ∃ thread message out behind,
      .logged thread message ∈ trace ∧
      .queue (.constructed thread ticket (makeRecord formatToN message out)) ∈ trace ∧
      appended = (makeRecord formatToN message out).copied behind ∧
      (Faithful (formatted message) (makeRecord formatToN message out) behind ↔
        (formatted message).length ≤ RecordSize)

theorem writesMessages {formatToN : FormatToN Message} {formatted : Message → List UInt8}
    (documented : Documented formatToN formatted) (RecordSize : Nat) :
    WritesMessages formatToN formatted RecordSize where
  record slot _ message behind := faithful_makeRecord documented message slot.data behind
  exposed slot _ message behind := copied_makeRecord documented message slot.data behind
  run _ _ _ _ _ _ _ _ _ _ run few _ _ member := by
    obtain ⟨thread, message, out, behind, logged, constructed, same⟩ :=
      logged_of_appended run few member
    exact ⟨thread, message, out, behind, logged, constructed, same,
      faithful_makeRecord documented message out behind⟩

section Example

/-- A text that is its own format and has no arguments. -/
abbrev Text := { text : List UInt8 // text.length < 2 ^ 64 }

/-- `format_to_n` on such a text. -/
def textToN : FormatToN Text := fun {length} out n text =>
  (Vector.ofFn fun i : Fin length => if i < n then text.val[i]?.getD out[i] else out[i],
    UInt64.ofNat text.val.length)

theorem documented_textToN : Documented textToN Subtype.val where
  written out n text i less inside present := by
    simp [textToN, less, inside, present]
  size out n text := by
    rw [textToN, UInt64.toNat_ofNat_of_lt' text.property]

/-- Two bytes. -/
def twoBytes : Text := ⟨[104, 105], by decide⟩

/-- A record of two bytes holds them, whatever its slot held. -/
theorem faithful_twoBytes : WritesMessages textToN Subtype.val 2 ∧
    ∀ (slot : Slot (FixedSizeRecord 2)) behind,
      (slot.construct 0 (makeRecord textToN twoBytes)).data.copied behind = [104, 105] := by
  have writes := writesMessages documented_textToN 2
  exact ⟨writes, fun slot behind => ((writes.record slot 0 twoBytes behind).mpr (by decide)).1⟩

/-- In a record of one byte they end behind the array. -/
theorem not_faithful_twoBytes : ¬ ∀ (slot : Slot (FixedSizeRecord 1)) ticket (text : Text) behind,
    Faithful text.val (slot.construct ticket (makeRecord textToN text)).data behind := by
  intro faithful
  have fits := (faithful ⟨0, ⟨#v[0], 0⟩, none⟩ 0 twoBytes fun _ => 0).2
  exact absurd fits (by decide)

end Example

end Logger

end Sheep
