/-
This file proves what becomes of the records of a logger whose calls are executed
one at a time. `poll` looks at nothing but the queue: it returns at once when the
queue is empty, although the buffer may hold records that an earlier `poll(false)`
has left there. So a flush keeps its promise exactly when it does not find an
empty queue and a full buffer, and when all flushes do, every record is written to
every output that was attached when it was logged.

Between two flushes the records lie in the queue and in the buffer. A call that
polls passes them on: what is written to an output, what is in the buffer and what
is in the queue are together the same bytes before and after it.
-/

import Sheep.LoggerCalls
import Sheep.LogRecords

namespace Sheep

namespace Logger

namespace Serial

variable {File Message : Type} {RecordSize : Nat}

/-! ### Outputs of a run -/

/-- The outputs that have been attached in a run, besides the one of the constructor. -/
def attaches : List (Event File RecordSize) → Nat
  | [] => 0
  | .attached _ :: events => attaches events + 1
  | _ :: events => attaches events

/-- The records that were logged when an output had been attached, by its place in `m_outputs`. -/
def loggedSince : Nat → List (Event File RecordSize) → List (FixedSizeRecord RecordSize × Nat)
  | _, [] => []
  | entry, .attached _ :: events => loggedSince (entry - 1) events
  | 0, .logged ticket record :: events => (record, ticket) :: loggedSince 0 events
  | entry, _ :: events => loggedSince entry events

/-- The bytes that are written to an output. -/
def written (entry : Nat) : List (Event File RecordSize) → List UInt8
  | [] => []
  | .fwrote place _ bytes :: events =>
      if place = entry then bytes ++ written entry events else written entry events
  | _ :: events => written entry events

/-- All records have been written to all outputs that were attached when they were logged. -/
def AllWritten (behind : Nat → Nat → UInt8) (trace : List (Event File RecordSize)) : Prop :=
  ∀ entry ≤ attaches trace, copies behind (loggedSince entry trace) <:+ written entry trace

/-- Calls that do not take outputs away, but for the destructor. -/
def Plain : Action File Message RecordSize → Prop
  | .setLogFile _ => False
  | .closeLogFiles => False
  | _ => True

/-- The calls that are a `poll(true)` or execute one. -/
def State.Flushes (s : State File RecordSize) : Action File Message RecordSize → Prop
  | .poll flushFile => flushFile = true
  | .background => s.background = .sleep
  | .startBackgroundThread => s.bgtRunning = true ∧ s.background = .sleep
  | .stopBackgroundThread => s.bgtRunning = true ∧ s.background = .sleep
  | .destroy => True
  | _ => False

/-- No flush finds an empty queue and records in the buffer. -/
def Meets (s : State File RecordSize) (action : Action File Message RecordSize) : Prop :=
  s.Flushes action → s.queue = [] → s.buf = []

theorem attaches_append (first second : List (Event File RecordSize)) :
    attaches (first ++ second) = attaches first + attaches second := by
  induction first with
  | nil => exact (Nat.zero_add _).symm
  | cons event events inductionHypothesis =>
    cases event with
    | attached file =>
      show attaches (events ++ second) + 1 = attaches events + 1 + attaches second
      rw [inductionHypothesis]
      omega
    | logged ticket record => exact inductionHypothesis
    | fwrote entry file bytes => exact inductionHypothesis
    | fclosed file => exact inductionHypothesis

theorem written_append (entry : Nat) (first second : List (Event File RecordSize)) :
    written entry (first ++ second) = written entry first ++ written entry second := by
  induction first with
  | nil => rfl
  | cons event events inductionHypothesis =>
    cases event with
    | fwrote place file bytes =>
      rw [List.cons_append, written, written, inductionHypothesis]
      split
      · rw [List.append_assoc]
      · rfl
    | logged ticket record => exact inductionHypothesis
    | attached file => exact inductionHypothesis
    | fclosed file => exact inductionHypothesis

theorem loggedSince_append (entry : Nat) (first second : List (Event File RecordSize)) :
    loggedSince entry (first ++ second) =
      loggedSince entry first ++ loggedSince (entry - attaches first) second := by
  induction first generalizing entry with
  | nil => rfl
  | cons event events inductionHypothesis =>
    cases event with
    | attached file =>
      show loggedSince (entry - 1) (events ++ second) = loggedSince (entry - 1) events ++
        loggedSince (entry - (attaches events + 1)) second
      rw [inductionHypothesis, Nat.sub_sub, Nat.add_comm 1]
    | logged ticket record =>
      cases entry with
      | zero =>
        show (record, ticket) :: loggedSince 0 (events ++ second) = _
        rw [inductionHypothesis 0]
        rfl
      | succ entry => exact inductionHypothesis (entry + 1)
    | fwrote place file bytes => cases entry <;> exact inductionHypothesis _
    | fclosed file => cases entry <;> exact inductionHypothesis _

/-- Nothing has been logged since an output was attached that is not attached yet. -/
theorem loggedSince_eq_nil {entry : Nat} {trace : List (Event File RecordSize)}
    (later : attaches trace < entry) : loggedSince entry trace = [] := by
  induction trace generalizing entry with
  | nil => rfl
  | cons event events inductionHypothesis =>
    cases entry with
    | zero => cases later
    | succ entry =>
      cases event with
      | attached file => exact inductionHypothesis (Nat.lt_of_succ_lt_succ later)
      | logged ticket record => exact inductionHypothesis later
      | fwrote place file bytes => exact inductionHypothesis later
      | fclosed file => exact inductionHypothesis later

/-! ### Passing the records on -/

section Memory

variable (behind : Nat → Nat → UInt8)

/-- What the records in the queue will add to the buffer. -/
def State.pending (s : State File RecordSize) : List UInt8 :=
  copies behind (s.queue.zipIdx s.consumed)

/-- A part of a call that moves records on, and does nothing else to the outside. -/
structure Passes (s next : State File RecordSize) (events : List (Event File RecordSize)) :
    Prop where
  destroyed : next.destroyed = s.destroyed
  outputs : next.outputs = s.outputs
  attaches : attaches events = 0
  logged : ∀ entry, loggedSince entry events = []
  passed : ∀ entry < s.outputs.length,
    written entry events ++ (next.buf ++ next.pending behind) = s.buf ++ s.pending behind

variable {behind}

/-- A part of a call that leaves the records where they are. -/
theorem Passes.still {s next : State File RecordSize} (destroyed : next.destroyed = s.destroyed)
    (outputs : next.outputs = s.outputs) (buf : next.buf = s.buf) (queue : next.queue = s.queue)
    (consumed : next.consumed = s.consumed) : Passes behind s next [] where
  destroyed := destroyed
  outputs := outputs
  attaches := rfl
  logged _ := by unfold loggedSince; rfl
  passed entry _ := by
    unfold State.pending
    rw [buf, queue, consumed]
    rfl

/-- One part after another. -/
theorem Passes.trans {s middle next : State File RecordSize}
    {first second : List (Event File RecordSize)} (before : Passes behind s middle first)
    (after : Passes behind middle next second) : Passes behind s next (first ++ second) where
  destroyed := after.destroyed.trans before.destroyed
  outputs := after.outputs.trans before.outputs
  attaches := by rw [attaches_append, before.attaches, after.attaches]
  logged entry := by
    rw [loggedSince_append, before.logged, after.logged]
    rfl
  passed entry less := by
    have there := after.passed entry (by rw [before.outputs]; exact less)
    rw [written_append, List.append_assoc, there]
    exact before.passed entry less

/-- Records are moved on, and nothing is done but to write to outputs. -/
structure Pours (behind : Nat → Nat → UInt8) (s next : State File RecordSize)
    (events : List (Event File RecordSize)) : Prop extends Passes behind s next events where
  writes : ∀ event ∈ events, ∃ entry file bytes,
    event = .fwrote entry file bytes ∧ file ∈ s.outputs

/-- Nothing is written. -/
theorem Passes.pours {s next : State File RecordSize} (passes : Passes behind s next []) :
    Pours behind s next [] :=
  ⟨passes, fun _ member => absurd member List.not_mem_nil⟩

theorem Pours.still {s next : State File RecordSize} (destroyed : next.destroyed = s.destroyed)
    (outputs : next.outputs = s.outputs) (buf : next.buf = s.buf) (queue : next.queue = s.queue)
    (consumed : next.consumed = s.consumed) : Pours behind s next [] :=
  (Passes.still destroyed outputs buf queue consumed).pours

theorem Pours.trans {s middle next : State File RecordSize}
    {first second : List (Event File RecordSize)} (before : Pours behind s middle first)
    (after : Pours behind middle next second) : Pours behind s next (first ++ second) where
  toPasses := before.toPasses.trans after.toPasses
  writes event member := by
    rcases List.mem_append.mp member with early | late
    · exact before.writes event early
    · obtain ⟨entry, file, bytes, same, attached⟩ := after.writes event late
      rw [before.outputs] at attached
      exact ⟨entry, file, bytes, same, attached⟩

/-- The writes of one flush. -/
theorem written_flush (outputs : List File) (bytes : List UInt8) (entry start : Nat) :
    written entry ((outputs.zipIdx start).map fun output =>
        (.fwrote output.2 output.1 bytes : Event File RecordSize)) =
      if start ≤ entry ∧ entry < start + outputs.length then bytes else [] := by
  induction outputs generalizing start with
  | nil =>
    have never : ¬ (start ≤ entry ∧ entry < start + 0) := by omega
    rw [List.length_nil, if_neg never]
    rfl
  | cons file files inductionHypothesis =>
    rw [List.zipIdx_cons, List.map_cons, written, inductionHypothesis, List.length_cons]
    by_cases here : start = entry
    · rw [if_pos here, if_neg (by omega), if_pos (by omega), List.append_nil]
    · rw [if_neg here]
      by_cases inside : start + 1 ≤ entry ∧ entry < start + 1 + files.length
      · rw [if_pos inside, if_pos (by omega)]
      · rw [if_neg inside, if_neg (by omega)]

theorem pours_writeFile (s : State File RecordSize) :
    Pours behind s s.writeFile.1 s.writeFile.2 := by
  unfold State.writeFile
  split
  · exact .still rfl rfl rfl rfl rfl
  · have silent : ∀ outputs : List (File × Nat),
        attaches (outputs.map fun output =>
          (.fwrote output.2 output.1 s.buf : Event File RecordSize)) = 0 ∧
        ∀ entry, loggedSince entry (outputs.map fun output =>
          (.fwrote output.2 output.1 s.buf : Event File RecordSize)) = [] := by
      intro outputs
      induction outputs with
      | nil => exact ⟨rfl, fun entry => by unfold loggedSince; rfl⟩
      | cons output outputs inductionHypothesis =>
        refine ⟨inductionHypothesis.1, fun entry => ?_⟩
        cases entry <;> exact inductionHypothesis.2 _
    refine ⟨⟨rfl, rfl, (silent _).1, (silent _).2, fun entry less => ?_⟩, fun event member => ?_⟩
    · rw [written_flush, if_pos (by omega)]
      rfl
    · obtain ⟨output, place, rfl⟩ := List.mem_map.mp member
      exact ⟨_, _, _, rfl, List.fst_mem_of_mem_zipIdx place⟩

theorem pours_tryConsumeAll (s : State File RecordSize) :
    Pours behind s (s.tryConsumeAll behind) [] where
  destroyed := rfl
  outputs := rfl
  attaches := rfl
  logged _ := by unfold loggedSince; rfl
  passed entry _ := List.append_nil _
  writes _ member := absurd member List.not_mem_nil

theorem pours_poll (s : State File RecordSize) (flushFile : Bool) :
    Pours behind s (s.poll behind flushFile).1 (s.poll behind flushFile).2 := by
  unfold State.poll
  split
  · exact .still rfl rfl rfl rfl rfl
  · have threshold : ∀ after : State File RecordSize,
        let full := if flushThreshold RecordSize ≤ after.buf.length then after.writeFile
          else (after, [])
        Pours behind after full.1 full.2 := by
      intro after
      dsimp only
      split
      · exact pours_writeFile after
      · exact .still rfl rfl rfl rfl rfl
    have flush : ∀ after : State File RecordSize,
        let flushed := if flushFile then after.writeFile else (after, [])
        Pours behind after flushed.1 flushed.2 := by
      intro after
      cases flushFile
      · exact .still rfl rfl rfl rfl rfl
      · exact pours_writeFile after
    exact (pours_tryConsumeAll s).trans ((threshold _).trans (flush _))

theorem pours_round (s : State File RecordSize) :
    Pours behind s (s.round behind).1 (s.round behind).2 :=
  (pours_poll s true).trans (.still rfl rfl rfl rfl rfl)

theorem pours_join (s : State File RecordSize) :
    Pours behind s (s.join behind).1 (s.join behind).2 := by
  unfold State.join
  by_cases sleeps : s.background = .sleep
  · rw [if_pos sleeps]
    exact (pours_round s).trans (.still rfl rfl rfl rfl rfl)
  · rw [if_neg sleeps]
    exact .still rfl rfl rfl rfl rfl

theorem pours_stop (s : State File RecordSize) :
    Pours behind s (s.stopBackgroundThread behind).1 (s.stopBackgroundThread behind).2 := by
  unfold State.stopBackgroundThread
  split
  · have cleared : Pours behind s { s with bgtRunning := false } [] := .still rfl rfl rfl rfl rfl
    exact cleared.trans (pours_join _)
  · exact .still rfl rfl rfl rfl rfl

/-- The destructor, up to `closeLogFiles`. -/
theorem pours_lastPoll (s : State File RecordSize) :
    let polled := (s.stopBackgroundThread behind).andThen fun after => after.poll behind true
    Pours behind s polled.1 polled.2 :=
  (pours_stop s).trans (pours_poll _ true)

/-! ### What a flush leaves -/

theorem writeFile_buf (s : State File RecordSize) : s.writeFile.1.buf = [] := by
  unfold State.writeFile
  split
  · assumption
  · rfl

theorem writeFile_queue (s : State File RecordSize) : s.writeFile.1.queue = s.queue := by
  unfold State.writeFile
  split <;> rfl

/-- `poll` returns at once when the queue is empty. -/
theorem poll_of_empty {s : State File RecordSize} (flushFile : Bool) (empty : s.queue = []) :
    s.poll behind flushFile = (s, []) :=
  if_pos empty

theorem poll_queue (s : State File RecordSize) (flushFile : Bool) :
    (s.poll behind flushFile).1.queue = [] := by
  unfold State.poll
  split
  · assumption
  · have threshold : ∀ after : State File RecordSize,
        (if flushThreshold RecordSize ≤ after.buf.length then after.writeFile
          else (after, [])).1.queue = after.queue := by
      intro after
      split
      · exact writeFile_queue after
      · rfl
    cases flushFile
    · exact threshold _
    · exact (writeFile_queue _).trans (threshold _)

/-- A flush empties the buffer exactly when it is empty or the queue is not. -/
theorem poll_buf_eq_nil (s : State File RecordSize) :
    (s.poll behind true).1.buf = [] ↔ (s.queue = [] → s.buf = []) := by
  by_cases empty : s.queue = []
  · rw [poll_of_empty true empty]
    exact ⟨fun buf _ => buf, fun buf => buf empty⟩
  · refine ⟨fun _ same => absurd same empty, fun _ => ?_⟩
    unfold State.poll
    rw [if_neg empty]
    exact writeFile_buf _

variable (behind) in
/-- The last poll of a background thread that is stopped in its sleep. -/
theorem stop_of_sleep {s : State File RecordSize} (running : s.bgtRunning = true)
    (sleeps : s.background = .sleep) :
    (s.stopBackgroundThread behind).1.queue = [] ∧
      ((s.stopBackgroundThread behind).1.buf = [] ↔ (s.queue = [] → s.buf = [])) := by
  unfold State.stopBackgroundThread State.join
  rw [if_pos running]
  dsimp only
  rw [if_pos sleeps]
  exact ⟨poll_queue { s with bgtRunning := false } true,
    poll_buf_eq_nil { s with bgtRunning := false }⟩

variable (behind) in
/-- A background thread that is stopped elsewhere does not poll any more. -/
theorem stop_of_awake {s : State File RecordSize}
    (awake : ¬ (s.bgtRunning = true ∧ s.background = .sleep)) :
    (s.stopBackgroundThread behind).1.queue = s.queue ∧
      (s.stopBackgroundThread behind).1.buf = s.buf := by
  unfold State.stopBackgroundThread State.join
  by_cases running : s.bgtRunning = true
  · rw [if_pos running]
    dsimp only
    rw [if_neg fun sleeps => awake ⟨running, sleeps⟩]
    exact ⟨rfl, rfl⟩
  · rw [if_neg running]
    exact ⟨rfl, rfl⟩

variable (behind) in
/-- With an empty queue, `closeLogFiles` at most closes the files. -/
theorem closeLogFiles_of_empty {s : State File RecordSize} (empty : s.queue = []) :
    ∃ outputs files, s.closeLogFiles behind =
      ({ s with outputs := outputs }, List.map Event.fclosed files) := by
  unfold State.closeLogFiles
  split
  · exact ⟨s.outputs, [], rfl⟩
  · rw [poll_of_empty true empty]
    exact ⟨[], s.outputs, rfl⟩

variable (behind) in
/-- So that is all the destructor does after its poll. -/
theorem destroy_cases (s : State File RecordSize) :
    let polled := (s.stopBackgroundThread behind).andThen fun after => after.poll behind true
    ∃ outputs files, s.destroy behind =
      ({ polled.1 with outputs := outputs, destroyed := true },
        polled.2 ++ List.map Event.fclosed files) := by
  intro polled
  have empty : polled.1.queue = [] := poll_queue _ true
  obtain ⟨outputs, files, closed⟩ := closeLogFiles_of_empty behind empty
  refine ⟨outputs, files, ?_⟩
  show ({ (polled.1.closeLogFiles behind).1 with destroyed := true },
    (polled.2 ++ (polled.1.closeLogFiles behind).2) ++ []) = _
  rw [closed, List.append_nil]

/-- The poll of the destructor, like every flush. -/
theorem lastPoll_buf_eq_nil (s : State File RecordSize) :
    let polled := (s.stopBackgroundThread behind).andThen fun after => after.poll behind true
    polled.1.buf = [] ↔ (s.queue = [] → s.buf = []) := by
  refine (poll_buf_eq_nil _).trans ?_
  by_cases sleeps : s.bgtRunning = true ∧ s.background = .sleep
  · obtain ⟨queue, buf⟩ := stop_of_sleep behind sleeps.1 sleeps.2
    rw [queue, ← buf]
    exact ⟨fun empty => empty rfl, fun empty _ => empty⟩
  · obtain ⟨queue, buf⟩ := stop_of_awake behind sleeps
    rw [queue, buf]

theorem destroy_buf_eq_nil (s : State File RecordSize) :
    (s.destroy behind).1.queue = [] ∧
      ((s.destroy behind).1.buf = [] ↔ (s.queue = [] → s.buf = [])) := by
  obtain ⟨outputs, files, same⟩ := destroy_cases behind s
  rw [same]
  exact ⟨poll_queue _ true, lastPoll_buf_eq_nil s⟩

/-! ### Runs -/

/-- Where the records of a run are: written, in the buffer or in the queue. -/
structure Carried (behind : Nat → Nat → UInt8) (s : State File RecordSize)
    (trace : List (Event File RecordSize)) : Prop where
  outputs : s.destroyed = false → s.outputs.length = attaches trace + 1
  whole : copies behind (loggedSince 0 trace) =
    written 0 trace ++ (s.buf ++ s.pending behind)
  since : ∀ entry ≤ attaches trace, copies behind (loggedSince entry trace) <:+
    written entry trace ++ (s.buf ++ s.pending behind)

theorem carried_constructed (logLevel : LogLevel) (stdout : File) :
    Carried behind (constructed logLevel stdout : State File RecordSize) [] where
  outputs _ := rfl
  whole := rfl
  since entry _ := by
    unfold loggedSince
    exact List.nil_suffix

variable {s next : State File RecordSize} {trace events : List (Event File RecordSize)}

theorem carried_passes (carried : Carried behind s trace) (alive : s.destroyed = false)
    (passes : Passes behind s next events) : Carried behind next (trace ++ events) := by
  have attached : attaches (trace ++ events) = attaches trace := by
    rw [attaches_append, passes.attaches, Nat.add_zero]
  have logged : ∀ entry, loggedSince entry (trace ++ events) = loggedSince entry trace := by
    intro entry
    rw [loggedSince_append, passes.logged, List.append_nil]
  have moved : ∀ entry ≤ attaches trace, written entry (trace ++ events) ++
      (next.buf ++ next.pending behind) = written entry trace ++ (s.buf ++ s.pending behind) := by
    intro entry less
    have within : entry < s.outputs.length := by
      rw [carried.outputs alive]
      omega
    rw [written_append, List.append_assoc, passes.passed entry within]
  refine ⟨fun _ => ?_, ?_, fun entry less => ?_⟩
  · rw [passes.outputs, attached]
    exact carried.outputs alive
  · rw [logged, moved 0 (Nat.zero_le _)]
    exact carried.whole
  · rw [attached] at less
    rw [logged, moved entry less]
    exact carried.since entry less

/-- What a record that is logged will add to the buffer. -/
theorem pending_log (s : State File RecordSize) (record : FixedSizeRecord RecordSize) :
    State.pending behind { s with queue := s.queue ++ [record] } =
      s.pending behind ++ record.copied (behind (s.consumed + s.queue.length)) := by
  unfold State.pending copies
  rw [List.zipIdx_append, List.flatMap_append, Nat.add_comm]
  exact congrArg (_ ++ ·) (List.append_nil _)

theorem copies_loggedSince_log {entry ticket : Nat} (record : FixedSizeRecord RecordSize)
    (less : entry ≤ attaches trace) :
    copies behind (loggedSince entry (trace ++ [.logged ticket record])) =
      copies behind (loggedSince entry trace) ++ record.copied (behind ticket) := by
  rw [loggedSince_append, Nat.sub_eq_zero_of_le less]
  unfold copies
  rw [List.flatMap_append]
  exact congrArg (_ ++ ·) (List.append_nil _)

/-- A record that is logged waits in the queue. -/
theorem carried_log (carried : Carried behind s trace) (record : FixedSizeRecord RecordSize) :
    Carried behind { s with queue := s.queue ++ [record] }
      (trace ++ [.logged (s.consumed + s.queue.length) record]) := by
  have attached : attaches (trace ++ [.logged (s.consumed + s.queue.length) record]) =
      attaches trace := attaches_append _ _
  have same : ∀ entry, written entry
      (trace ++ [.logged (s.consumed + s.queue.length) record]) = written entry trace := by
    intro entry
    rw [written_append]
    exact List.append_nil _
  refine ⟨fun alive => ?_, ?_, fun entry less => ?_⟩
  · rw [attached]
    exact carried.outputs alive
  · rw [copies_loggedSince_log record (Nat.zero_le _), same, pending_log, carried.whole]
    simp only [List.append_assoc]
  · rw [attached] at less
    rw [copies_loggedSince_log record less, same, pending_log]
    have extended : copies behind (loggedSince entry trace) ++
        record.copied (behind (s.consumed + s.queue.length)) <:+
          written entry trace ++ (s.buf ++ s.pending behind) ++
            record.copied (behind (s.consumed + s.queue.length)) :=
      List.suffix_append_self_iff.mpr (carried.since entry less)
    simpa only [List.append_assoc] using extended

/-- A new output has nothing to wait for. -/
theorem carried_addLogFile (carried : Carried behind s trace) (alive : s.destroyed = false)
    (file : File) : Carried behind (s.addLogFile file).1 (trace ++ (s.addLogFile file).2) := by
  have attached : attaches (trace ++ (s.addLogFile file).2) = attaches trace + 1 :=
    attaches_append _ _
  have logged : ∀ entry, loggedSince entry (trace ++ (s.addLogFile file).2) =
      loggedSince entry trace := by
    intro entry
    rw [loggedSince_append]
    show loggedSince entry trace ++
      loggedSince (entry - attaches trace - 1) ([] : List (Event File RecordSize)) = _
    rw [loggedSince, List.append_nil]
  have same : ∀ entry, written entry (trace ++ (s.addLogFile file).2) = written entry trace := by
    intro entry
    rw [written_append]
    exact List.append_nil _
  refine ⟨fun _ => ?_, ?_, fun entry less => ?_⟩
  · rw [attached, ← carried.outputs alive]
    exact List.length_append
  · rw [logged, same]
    exact carried.whole
  · rw [logged, same]
    by_cases new : attaches trace < entry
    · rw [loggedSince_eq_nil new]
      exact List.nil_suffix
    · exact carried.since entry (Nat.le_of_not_lt new)

/-- Closing files writes nothing, logs nothing and attaches nothing. -/
theorem silent_fclosed (files : List File) :
    attaches (files.map (Event.fclosed : File → Event File RecordSize)) = 0 ∧
    (∀ entry, loggedSince entry
      (files.map (Event.fclosed : File → Event File RecordSize)) = []) ∧
    ∀ entry, written entry
      (files.map (Event.fclosed : File → Event File RecordSize)) = [] := by
  induction files with
  | nil => exact ⟨rfl, fun entry => by unfold loggedSince; rfl, fun _ => rfl⟩
  | cons file files inductionHypothesis =>
    obtain ⟨attaches, logged, written⟩ := inductionHypothesis
    refine ⟨attaches, fun entry => ?_, written⟩
    cases entry <;> exact logged _

theorem carried_destroy (carried : Carried behind s trace) (alive : s.destroyed = false) :
    Carried behind (s.destroy behind).1 (trace ++ (s.destroy behind).2) := by
  obtain ⟨outputs, files, same⟩ := destroy_cases behind s
  have polled := carried_passes carried alive (pours_lastPoll s).toPasses
  obtain ⟨none, unlogged, unwritten⟩ := @silent_fclosed File RecordSize files
  rw [same]
  dsimp only
  rw [← List.append_assoc]
  refine ⟨fun gone => (by cases gone), ?_, fun entry less => ?_⟩
  · rw [loggedSince_append, unlogged, written_append, unwritten, List.append_nil, List.append_nil]
    exact polled.whole
  · rw [attaches_append, none, Nat.add_zero] at less
    rw [loggedSince_append, unlogged, written_append, unwritten, List.append_nil, List.append_nil]
    exact polled.since entry less

variable {QCap : MPMCQueue.Capacity} {formatToN : FormatToN Message}
  {action : Action File Message RecordSize}

/-- A step is a call on a logger that is not destroyed. -/
theorem alive_of_serial (step : serial behind QCap formatToN s action = some (next, events)) :
    s.destroyed = false := by
  cases destroyed : s.destroyed with
  | false => rfl
  | true =>
    unfold serial at step
    rw [if_pos destroyed] at step
    cases step

theorem outcome_of_some {outcome : Outcome File RecordSize}
    (same : some outcome = some (next, events)) : next = outcome.1 ∧ events = outcome.2 := by
  cases same
  exact ⟨rfl, rfl⟩

/-- Calls that take no outputs away. -/
def Ordinary : Action File Message RecordSize → Prop
  | .setLogFile _ => False
  | .closeLogFiles => False
  | .destroy => False
  | _ => True

/-- What such a call does: a record is logged, or records are passed on, or an output is added. -/
theorem ordinary_cases (ordinary : Ordinary action)
    (step : serial behind QCap formatToN s action = some (next, events)) :
    (∃ record, next = { s with queue := s.queue ++ [record] } ∧
      events = [.logged (s.consumed + s.queue.length) record]) ∨
    Pours behind s next events ∨
    ∃ file, next = (s.addLogFile file).1 ∧ events = (s.addLogFile file).2 := by
  unfold serial at step
  rw [if_neg (by rw [alive_of_serial step]; exact fun same => by cases same)] at step
  cases action with
  | log level message slot =>
    dsimp only [State.log] at step
    split at step
    · split at step
      · cases step
        exact .inl ⟨_, rfl, rfl⟩
      · cases step
    · cases step
      exact .inr (.inl (.still rfl rfl rfl rfl rfl))
  | poll flushFile =>
    obtain ⟨rfl, rfl⟩ := outcome_of_some step
    exact .inr (.inl (pours_poll s flushFile))
  | background =>
    dsimp only [State.runBackground] at step
    split at step
    · cases step
      exact .inr (.inl (.still rfl rfl rfl rfl rfl))
    · cases step
      exact .inr (.inl (pours_round s))
    · cases step
  | startBackgroundThread =>
    obtain ⟨rfl, rfl⟩ := outcome_of_some step
    exact .inr (.inl ((pours_stop s).trans (.still rfl rfl rfl rfl rfl)))
  | stopBackgroundThread =>
    obtain ⟨rfl, rfl⟩ := outcome_of_some step
    exact .inr (.inl (pours_stop s))
  | setLogLevel level =>
    obtain ⟨rfl, rfl⟩ := outcome_of_some step
    exact .inr (.inl (.still rfl rfl rfl rfl rfl))
  | addLogFile file =>
    obtain ⟨rfl, rfl⟩ := outcome_of_some step
    exact .inr (.inr ⟨file, rfl, rfl⟩)
  | setLogFile file => cases ordinary
  | closeLogFiles => cases ordinary
  | destroy => cases ordinary

theorem destroy_of_serial (step : serial behind QCap formatToN s .destroy = some (next, events)) :
    next = (s.destroy behind).1 ∧ events = (s.destroy behind).2 := by
  have alive := alive_of_serial step
  unfold serial at step
  rw [if_neg (by rw [alive]; exact Bool.false_ne_true)] at step
  exact outcome_of_some step

/-- A plain call is ordinary, or destroys the logger. -/
theorem serial_cases (plain : Plain action)
    (step : serial behind QCap formatToN s action = some (next, events)) :
    (∃ record, next = { s with queue := s.queue ++ [record] } ∧
      events = [.logged (s.consumed + s.queue.length) record]) ∨
    Pours behind s next events ∨
    (∃ file, next = (s.addLogFile file).1 ∧ events = (s.addLogFile file).2) ∨
    (action = .destroy ∧ next = (s.destroy behind).1 ∧ events = (s.destroy behind).2) := by
  have split : Ordinary action ∨ action = .destroy := by
    cases action with
    | setLogFile file => cases plain
    | closeLogFiles => cases plain
    | destroy => exact .inr rfl
    | _ => exact .inl trivial
  rcases split with ordinary | rfl
  · obtain logged | pours | added := ordinary_cases ordinary step
    · exact .inl logged
    · exact .inr (.inl pours)
    · exact .inr (.inr (.inl added))
  · exact .inr (.inr (.inr ⟨rfl, destroy_of_serial step⟩))

theorem carried_serial (carried : Carried behind s trace) (plain : Plain action)
    (step : serial behind QCap formatToN s action = some (next, events)) :
    Carried behind next (trace ++ events) := by
  have alive := alive_of_serial step
  obtain ⟨record, rfl, rfl⟩ | pours | ⟨file, rfl, rfl⟩ | ⟨_, rfl, rfl⟩ := serial_cases plain step
  · exact carried_log carried record
  · exact carried_passes carried alive pours.toPasses
  · exact carried_addLogFile carried alive file
  · exact carried_destroy carried alive

/-- In every run the records are where they should be. -/
theorem carried_of_reachesBy {logLevel : LogLevel} {stdout : File}
    (run : Transitions.ReachesBy (fun _ action => Plain action) (serial behind QCap formatToN)
      (constructed logLevel stdout) s trace) : Carried behind s trace :=
  run.invariant (Carried behind) (carried_constructed logLevel stdout)
    fun _ _ _ _ _ _ carried plain step => carried_serial carried plain step

/-- A flush leaves an empty queue, and an empty buffer exactly when it meets the condition. -/
theorem flushed_of_serial (flushes : s.Flushes action)
    (step : serial behind QCap formatToN s action = some (next, events)) :
    next.queue = [] ∧ (next.buf = [] ↔ (s.queue = [] → s.buf = [])) := by
  unfold serial at step
  rw [if_neg (by rw [alive_of_serial step]; exact fun same => by cases same)] at step
  cases action with
  | poll flushFile =>
    have isTrue : flushFile = true := flushes
    obtain ⟨rfl, rfl⟩ := outcome_of_some step
    rw [isTrue]
    exact ⟨poll_queue s true, poll_buf_eq_nil s⟩
  | background =>
    have sleeps : s.background = .sleep := flushes
    dsimp only [State.runBackground] at step
    rw [sleeps] at step
    cases step
    exact ⟨poll_queue s true, poll_buf_eq_nil s⟩
  | startBackgroundThread =>
    obtain ⟨running, sleeps⟩ : s.bgtRunning = true ∧ s.background = .sleep := flushes
    obtain ⟨rfl, rfl⟩ := outcome_of_some step
    exact stop_of_sleep behind running sleeps
  | stopBackgroundThread =>
    obtain ⟨running, sleeps⟩ : s.bgtRunning = true ∧ s.background = .sleep := flushes
    obtain ⟨rfl, rfl⟩ := outcome_of_some step
    exact stop_of_sleep behind running sleeps
  | destroy =>
    obtain ⟨rfl, rfl⟩ := outcome_of_some step
    exact destroy_buf_eq_nil s
  | log _ _ _ => cases flushes
  | setLogLevel _ => cases flushes
  | addLogFile _ => cases flushes
  | setLogFile _ => cases flushes
  | closeLogFiles => cases flushes

/-- What has left the queue and the buffer has been written. -/
theorem allWritten_of_carried (carried : Carried behind s trace) (queue : s.queue = [])
    (buf : s.buf = []) : AllWritten behind trace := by
  intro entry less
  have since := carried.since entry less
  unfold State.pending at since
  rw [queue, buf] at since
  simpa only [copies, List.zipIdx_nil, List.flatMap_nil, List.append_nil] using since

/-- What is left in the buffer has not been written. -/
theorem not_allWritten_of_carried (carried : Carried behind s trace) (left : s.buf ≠ []) :
    ¬ AllWritten behind trace := by
  intro all
  have length := (all 0 (Nat.zero_le _)).length_le
  rw [carried.whole, List.length_append, List.length_append] at length
  have some := List.length_pos_of_ne_nil left
  omega

/-- When all flushes meet the condition, nothing is left at the end. -/
theorem emptied_of_reachesBy {logLevel : LogLevel} {stdout : File}
    (run : Transitions.ReachesBy (fun s action => Plain action ∧ Meets s action)
      (serial behind QCap formatToN) (constructed logLevel stdout) s trace) :
    s.destroyed = true → s.queue = [] ∧ s.buf = [] := by
  refine run.invariant (fun s _ => s.destroyed = true → s.queue = [] ∧ s.buf = [])
    (fun gone => by cases gone) ?_
  intro s trace action next events _ _ permitted step gone
  have alive := alive_of_serial step
  obtain ⟨record, rfl, rfl⟩ | pours | ⟨file, rfl, rfl⟩ | ⟨rfl, -, -⟩ :=
    serial_cases permitted.1 step
  · rw [alive] at gone
    cases gone
  · rw [pours.destroyed, alive] at gone
    cases gone
  · have same : (s.addLogFile file).1.destroyed = s.destroyed := rfl
    rw [same, alive] at gone
    cases gone
  · obtain ⟨queue, buf⟩ := flushed_of_serial (show s.Flushes .destroy from trivial) step
    exact ⟨queue, buf.mpr (permitted.2 trivial)⟩

/-- The flushes of a logger. In every run, a flush empties the buffer exactly when it does not find
an empty queue and records in the buffer, and exactly then it leaves every record written. So in a
run in which no flush finds that, nothing is lost at the end. -/
theorem losesNothing_of_reachesBy {logLevel : LogLevel} {stdout : File}
    (run : Transitions.ReachesBy (fun _ action => Plain action) (serial behind QCap formatToN)
      (constructed logLevel stdout) s trace) :
    (∀ (action : Action File Message RecordSize) next events, Plain action → s.Flushes action →
      serial behind QCap formatToN s action = some (next, events) →
        (next.buf = [] ↔ Meets s action) ∧
        (AllWritten behind (trace ++ events) ↔ Meets s action)) ∧
    (Transitions.ReachesBy (fun s action => Plain action ∧ Meets s action)
      (serial behind QCap formatToN) (constructed logLevel stdout) s trace →
        s.destroyed = true → s.buf = [] ∧ AllWritten behind trace) := by
  have carried := carried_of_reachesBy run
  constructor
  · intro action next events plain flushes step
    obtain ⟨queue, buf⟩ := flushed_of_serial flushes step
    have after := carried_serial carried plain step
    have emptied : next.buf = [] ↔ Meets s action :=
      buf.trans ⟨fun meets _ => meets, fun meets => meets flushes⟩
    refine ⟨emptied, fun all => emptied.mp ?_, fun meets => ?_⟩
    · by_contra left
      exact not_allWritten_of_carried after left all
    · exact allWritten_of_carried after queue (emptied.mpr meets)
  · intro good gone
    obtain ⟨queue, buf⟩ := emptied_of_reachesBy good gone
    exact ⟨buf, allWritten_of_carried carried queue buf⟩

section Example

instance (s : State File RecordSize) (action : Action File Message RecordSize) :
    Decidable (s.Flushes action) := by
  unfold State.Flushes
  cases action <;> infer_instance

instance (s : State File RecordSize) (action : Action File Message RecordSize) :
    Decidable (Plain action ∧ Meets s action) := by
  unfold Plain Meets
  cases action <;> infer_instance

/-- A record stays in the buffer until the next record is flushed with it. -/
def twoPolls : List (Action Unit Text 2) :=
  let slot : FixedSizeRecord 2 := ⟨#v[0, 0], 0⟩
  [.log .info twoBytes slot, .poll false, .log .info twoBytes slot, .poll true, .destroy]

theorem losesNothing_twoPolls : ∃ s trace,
    Transitions.executeBy (fun s action => Plain action ∧ Meets s action)
      (serial (fun _ _ => 0) MPMCQueue.oneSlot textToN)
      (constructed .debug () : State Unit 2) twoPolls = some (s, trace) ∧
    s.destroyed = true ∧ s.buf = [] ∧ AllWritten (fun _ _ => 0) trace := by
  have ended : (Transitions.executeBy (fun s action => Plain action ∧ Meets s action)
      (serial (fun _ _ => 0) MPMCQueue.oneSlot textToN)
      (constructed .debug () : State Unit 2) twoPolls).map (fun reached => reached.1.destroyed) =
        some true := by
    decide +kernel
  obtain ⟨⟨s, trace⟩, executed, gone⟩ := Option.map_eq_some_iff.mp ended
  have run := Transitions.reachesBy_of_executeBy .start executed
  rw [List.nil_append] at run
  exact ⟨s, trace, executed, gone,
    (losesNothing_of_reachesBy (run.mono fun _ _ permitted => permitted.1)).2 run gone⟩

/-- Without the second record, the flush finds an empty queue, and so does the destructor. -/
def onePoll : List (Action Unit Text 2) :=
  [.log .info twoBytes ⟨#v[0, 0], 0⟩, .poll false]

theorem not_losesNothing_onePoll :
    let system := serial (fun _ _ => 0) MPMCQueue.oneSlot textToN
    let start : State Unit 2 := constructed .debug ()
    (∃ s trace next events,
      Transitions.ReachesBy (fun _ action => Plain action) system start s trace ∧
      system s (.poll true) = some (next, events) ∧ next.buf = [104, 105]) ∧
    ∃ s trace, Transitions.ReachesBy (fun _ action => Plain action) system start s trace ∧
      s.destroyed = true ∧ ¬ AllWritten (fun _ _ => 0) trace := by
  intro system start
  constructor
  · have polled : (Transitions.execute system start onePoll).bind (fun reached =>
        (system reached.1 (.poll true)).map fun next => next.1.buf) = some [104, 105] := by
      decide +kernel
    obtain ⟨⟨s, trace⟩, executed, polls⟩ := Option.bind_eq_some_iff.mp polled
    obtain ⟨⟨next, events⟩, step, left⟩ := Option.map_eq_some_iff.mp polls
    refine ⟨s, trace, next, events, Transitions.reachesBy_of_execute ?_ executed, step, left⟩
    intro action member _
    revert action
    exact List.forall_mem_cons.mpr ⟨trivial, List.forall_mem_singleton.mpr trivial⟩
  · have ended : (Transitions.execute system start (onePoll ++ [.poll true, .destroy])).map
        (fun reached => (reached.1.destroyed, written 0 reached.2,
          copies (fun _ _ => 0) (loggedSince 0 reached.2))) = some (true, [], [104, 105]) := by
      decide +kernel
    obtain ⟨⟨s, trace⟩, executed, same⟩ := Option.map_eq_some_iff.mp ended
    obtain ⟨gone, bytes⟩ := Prod.mk.inj same
    obtain ⟨nothing, record⟩ := Prod.mk.inj bytes
    refine ⟨s, trace, Transitions.reachesBy_of_execute ?_ executed, gone, fun all => ?_⟩
    · intro action member _
      revert action
      exact List.forall_mem_cons.mpr ⟨trivial, List.forall_mem_cons.mpr
        ⟨trivial, List.forall_mem_cons.mpr ⟨trivial, List.forall_mem_singleton.mpr trivial⟩⟩⟩
    · have suffix := all 0 (Nat.zero_le _)
      rw [nothing, record] at suffix
      cases List.suffix_nil.mp suffix

end Example

end Memory

end Serial

end Logger

end Sheep
