/-
This file finds out what becomes of the output files of a logger whose calls are
executed one at a time. `closeLogFiles` returns at once when the buffer is empty, as it
is after every flush: then it closes nothing, `setLogFile` takes the files out of
`m_outputs` all the same, and the records that wait in the queue go to the new file.
Where the buffer is not empty, but the queue is, its `poll` returns at once, and the
buffer goes to the new file.

So files are closed once and switched cleanly exactly when each of these calls finds
what it does not expect: records in the buffer, and for a switch records in the queue
as well. The destructor polls before it closes, so it must find no records in the queue.
-/

import Mathlib.Data.List.Nodup
import Sheep.LoggerFlush

namespace Sheep

namespace Logger

namespace Serial

variable {File Message : Type} {RecordSize : Nat}

/-! ### What is to hold -/

/-- An `fclose` of a file. -/
def Event.closes [DecidableEq File] (file : File) : Event File RecordSize → Bool
  | .fclosed other => other == file
  | _ => false

/-- Calls that leave the files in `m_outputs` where they are. -/
def State.Keeps (s : State File RecordSize) : Action File Message RecordSize → Prop
  | .setLogFile _ => False
  | .closeLogFiles => s.buf = [] ∨ s.outputs = []
  | .destroy => False
  | _ => True

/-- The file leaves `m_outputs` in a step from `s` to `next`. -/
def State.Leaves (s next : State File RecordSize) (file : File) :
    Action File Message RecordSize → Prop
  | .setLogFile _ => file ∈ s.outputs
  | .destroy => file ∈ s.outputs
  | _ => file ∈ s.outputs ∧ file ∉ next.outputs

section Memory

variable (behind : Nat → Nat → UInt8) (QCap : MPMCQueue.Capacity)
  (formatToN : FormatToN Message) (logLevel : LogLevel) (stdout : File)

/-- A run comes by the state `m` to `s`, and from there on no file leaves `m_outputs`. -/
def Since (m s : State File RecordSize) (trace : List (Event File RecordSize)) : Prop :=
  (∃ before, Transitions.Reaches (serial behind QCap formatToN) (constructed logLevel stdout) m
    before) ∧
  Transitions.ReachesBy State.Keeps (serial behind QCap formatToN) m s trace

/-- A step closes the files that leave, and switches cleanly if it is a switch. -/
structure SwitchesCleanly [DecidableEq File] (s : State File RecordSize)
    (action : Action File Message RecordSize) (next : State File RecordSize)
    (events : List (Event File RecordSize)) : Prop where
  /-- After `closeLogFiles`, `m_outputs` is empty. -/
  emptied : action = .closeLogFiles → next.outputs = []
  /-- A file that leaves has been closed once, however long it has been attached. -/
  closed : ∀ file, s.Leaves next file action → ∀ m trace,
    Since behind QCap formatToN logLevel stdout m s trace → file ∈ m.outputs →
    (trace ++ events).countP (Event.closes file) = 1
  /-- What was logged while an output was attached has been written to it before the switch. -/
  written : ∀ file, action = .setLogFile file → ∀ m trace,
    Since behind QCap formatToN logLevel stdout m s trace → ∀ entry < m.outputs.length,
    copies behind (loggedSince 0 trace) <:+ written entry (trace ++ events)
  /-- The new file is not written to in the switch, and as long as it is attached, up to the step in
  which it leaves, it gets nothing but what is logged after the switch. -/
  fresh : ∀ file, action = .setLogFile file → (∀ entry bytes, .fwrote entry file bytes ∉ events) ∧
    ∀ s' after, Transitions.ReachesBy State.Keeps (serial behind QCap formatToN) next s' after →
    ∀ action' next' more, serial behind QCap formatToN s' action' = some (next', more) →
    Serial.written 0 (after ++ more) <+: copies behind (loggedSince 0 (after ++ more))

/-- When a step does so. -/
def State.Switches (s : State File RecordSize) : Action File Message RecordSize → Prop
  | .closeLogFiles => s.outputs = [] ∨ s.buf ≠ [] ∧ s.outputs.Nodup
  | .setLogFile file =>
      s.outputs = [] ∧ s.buf = [] ∧ s.pending behind = [] ∨
      s.outputs ≠ [] ∧ s.buf ≠ [] ∧ s.queue ≠ [] ∧ s.outputs.Nodup ∧ file ∉ s.outputs
  | .destroy => s.outputs = [] ∨ s.buf ≠ [] ∧ s.queue = [] ∧ s.outputs.Nodup
  | _ => True

end Memory

/-! ### Runs that keep the outputs -/

section Runs

variable {behind : Nat → Nat → UInt8} {QCap : MPMCQueue.Capacity} {formatToN : FormatToN Message}
  {m s next middle : State File RecordSize} {trace events told : List (Event File RecordSize)}
  {action : Action File Message RecordSize}

theorem countP_closes_fclosed [DecidableEq File] (file : File) (files : List File) :
    (files.map (Event.fclosed : File → Event File RecordSize)).countP (Event.closes file) =
      files.count file := by
  rw [List.countP_map]
  rfl

/-- Whoever only writes closes nothing. -/
theorem Pours.countP_closes [DecidableEq File] (pours : Pours behind s next events) (file : File) :
    events.countP (Event.closes file) = 0 := by
  refine List.countP_eq_zero.mpr fun event member => ?_
  obtain ⟨entry, other, bytes, rfl, _⟩ := pours.writes event member
  exact Bool.false_ne_true

/-- What has been written to an output since some state, and what waits for it, are what waited for
it there and what has been logged. -/
structure PassedOn (behind : Nat → Nat → UInt8) (m s : State File RecordSize)
    (trace : List (Event File RecordSize)) : Prop where
  outputs : m.outputs <+: s.outputs
  passed : ∀ entry < m.outputs.length, written entry trace ++ (s.buf ++ s.pending behind) =
    m.buf ++ m.pending behind ++ copies behind (loggedSince 0 trace)

theorem passedOn_start (m : State File RecordSize) : PassedOn behind m m [] where
  outputs := List.prefix_rfl
  passed _ _ := (List.append_nil _).symm

theorem PassedOn.pours (passedOn : PassedOn behind m s trace) (pours : Pours behind s next events) :
    PassedOn behind m next (trace ++ events) where
  outputs := by
    rw [pours.outputs]
    exact passedOn.outputs
  passed entry less := by
    have within := lt_of_lt_of_le less passedOn.outputs.length_le
    rw [written_append, List.append_assoc, pours.passed entry within, loggedSince_append,
      pours.logged, List.append_nil]
    exact passedOn.passed entry less

theorem PassedOn.log (passedOn : PassedOn behind m s trace)
    (record : FixedSizeRecord RecordSize) :
    PassedOn behind m { s with queue := s.queue ++ [record] }
      (trace ++ [.logged (s.consumed + s.queue.length) record]) where
  outputs := passedOn.outputs
  passed entry less := by
    have unwritten : written entry (trace ++ [.logged (s.consumed + s.queue.length) record]) =
        written entry trace := by
      rw [written_append]
      exact List.append_nil _
    rw [unwritten, pending_log, copies_loggedSince_log record (Nat.zero_le _),
      ← List.append_assoc (m.buf ++ m.pending behind), ← passedOn.passed entry less]
    simp only [List.append_assoc]

theorem PassedOn.addLogFile (passedOn : PassedOn behind m s trace) (file : File) :
    PassedOn behind m (s.addLogFile file).1 (trace ++ (s.addLogFile file).2) where
  outputs := passedOn.outputs.trans (List.prefix_append _ _)
  passed entry less := by
    have unwritten : written entry (trace ++ (s.addLogFile file).2) = written entry trace := by
      rw [written_append]
      exact List.append_nil _
    have unlogged : loggedSince 0 (trace ++ (s.addLogFile file).2) = loggedSince 0 trace := by
      rw [loggedSince_append]
      exact List.append_nil _
    rw [unwritten, unlogged]
    exact passedOn.passed entry less

/-- A call that keeps the outputs is ordinary, or a `closeLogFiles` that does nothing. -/
theorem keeps_cases (keeps : s.Keeps action)
    (step : serial behind QCap formatToN s action = some (next, events)) :
    (∃ record, next = { s with queue := s.queue ++ [record] } ∧
      events = [.logged (s.consumed + s.queue.length) record]) ∨
    Pours behind s next events ∨
    ∃ file, next = (s.addLogFile file).1 ∧ events = (s.addLogFile file).2 := by
  cases action with
  | setLogFile file => cases keeps
  | destroy => cases keeps
  | closeLogFiles =>
    have alive := alive_of_serial step
    unfold serial at step
    rw [if_neg (by rw [alive]; exact Bool.false_ne_true)] at step
    dsimp only [State.closeLogFiles] at step
    rw [if_pos (show s.buf = [] ∨ s.outputs = [] from keeps)] at step
    cases step
    exact .inr (.inl (.still rfl rfl rfl rfl rfl))
  | _ => exact ordinary_cases (by exact trivial) step

theorem PassedOn.step (passedOn : PassedOn behind m s trace) (keeps : s.Keeps action)
    (step : serial behind QCap formatToN s action = some (next, events)) :
    PassedOn behind m next (trace ++ events) := by
  obtain ⟨record, rfl, rfl⟩ | pours | ⟨file, rfl, rfl⟩ := keeps_cases keeps step
  · exact passedOn.log record
  · exact passedOn.pours pours
  · exact passedOn.addLogFile file

theorem passedOn_of_reachesBy
    (run : Transitions.ReachesBy State.Keeps (serial behind QCap formatToN) m s trace) :
    PassedOn behind m s trace :=
  run.invariant (PassedOn behind m) (passedOn_start m)
    fun _ _ _ _ _ _ passedOn keeps step => passedOn.step keeps step

/-- Nothing is closed while no file leaves. -/
theorem countP_closes_of_reachesBy [DecidableEq File] (file : File)
    (run : Transitions.ReachesBy State.Keeps (serial behind QCap formatToN) m s trace) :
    trace.countP (Event.closes file) = 0 := by
  refine run.invariant (fun _ trace => trace.countP (Event.closes file) = 0) List.countP_nil ?_
  intro s trace action next events _ none keeps step
  rw [List.countP_append, none, Nat.zero_add]
  obtain ⟨record, rfl, rfl⟩ | pours | ⟨other, rfl, rfl⟩ := keeps_cases keeps step
  · rfl
  · exact pours.countP_closes file
  · rfl

end Runs

/-! ### Calls that take outputs away -/

section Leaving

variable {behind : Nat → Nat → UInt8} {QCap : MPMCQueue.Capacity} {formatToN : FormatToN Message}
  {m s next : State File RecordSize} {trace events : List (Event File RecordSize)}
  {action : Action File Message RecordSize}

/-- What a call does that takes outputs away: it passes records on, closes some files, and attaches
at most one. -/
structure TakesAway (behind : Nat → Nat → UInt8) (s next : State File RecordSize)
    (files news : List File) (events : List (Event File RecordSize)) : Prop where
  split : ∃ middle told, Pours behind s middle told ∧ next.buf = middle.buf ∧
    next.queue = middle.queue ∧ next.consumed = middle.consumed ∧
    events = told ++ (files.map .fclosed ++ news.map .attached)

/-- The files that `closeLogFiles` closes. -/
def State.closable (s : State File RecordSize) : List File :=
  if s.buf = [] then [] else s.outputs

theorem closable_cases (s : State File RecordSize) : s.closable = s.outputs ∨ s.closable = [] := by
  unfold State.closable
  split
  · exact .inr rfl
  · exact .inl rfl

/-- `closeLogFiles` closes all outputs when there are records in the buffer. -/
theorem closable_iff (s : State File RecordSize) : s.outputs = [] ∨
    s.closable = s.outputs ∧ s.outputs.Nodup ↔ s.outputs = [] ∨ s.buf ≠ [] ∧ s.outputs.Nodup := by
  unfold State.closable
  by_cases none : s.outputs = []
  · exact ⟨fun _ => .inl none, fun _ => .inl none⟩
  · by_cases buf : s.buf = []
    · rw [if_pos buf]
      constructor
      · rintro (same | ⟨same, _⟩)
        · exact .inl same
        · exact .inl same.symm
      · rintro (same | ⟨some, _⟩)
        · exact .inl same
        · exact absurd buf some
    · rw [if_neg buf]
      exact or_congr_right ⟨fun ⟨_, distinct⟩ => ⟨buf, distinct⟩,
        fun ⟨_, distinct⟩ => ⟨rfl, distinct⟩⟩

variable (behind) in
theorem closeLogFiles_takesAway (s : State File RecordSize) :
    TakesAway behind s (s.closeLogFiles behind).1 s.closable [] (s.closeLogFiles behind).2 := by
  unfold State.closeLogFiles State.closable
  by_cases early : s.buf = [] ∨ s.outputs = []
  · refine ⟨s, [], .still rfl rfl rfl rfl rfl, ?_⟩
    rw [if_pos early]
    rcases early with buf | outputs
    · rw [if_pos buf]
      exact ⟨rfl, rfl, rfl, rfl⟩
    · rw [outputs, ite_self]
      exact ⟨rfl, rfl, rfl, rfl⟩
  · have polled : Pours behind s (s.poll behind true).1 (s.poll behind true).2 := pours_poll s true
    refine ⟨(s.poll behind true).1, (s.poll behind true).2, polled, ?_⟩
    rw [if_neg early, if_neg fun buf => early (.inl buf), List.map_nil, List.append_nil,
      ← polled.outputs]
    exact ⟨rfl, rfl, rfl, rfl⟩

variable (behind) in
/-- The outputs that `closeLogFiles` leaves. -/
theorem closeLogFiles_outputs (s : State File RecordSize) :
    (s.closeLogFiles behind).1.outputs = if s.buf = [] then s.outputs else [] := by
  unfold State.closeLogFiles
  by_cases early : s.buf = [] ∨ s.outputs = []
  · rw [if_pos early]
    rcases early with buf | outputs
    · rw [if_pos buf]
    · rw [outputs, ite_self]
  · rw [if_neg early, if_neg fun buf => early (.inl buf)]
    rfl

theorem pending_of_empty (empty : s.queue = []) : s.pending behind = [] := by
  unfold State.pending
  rw [empty]
  rfl

variable (behind) in
/-- What waits after `closeLogFiles`: nothing exactly when it has found nothing, or has found both
an output to close and records in the buffer and in the queue. -/
theorem closeLogFiles_rest (s : State File RecordSize) :
    ((s.closeLogFiles behind).1.buf = [] ∧ (s.closeLogFiles behind).1.pending behind = []) ↔
      s.buf = [] ∧ s.pending behind = [] ∨ s.outputs ≠ [] ∧ s.buf ≠ [] ∧ s.queue ≠ [] := by
  unfold State.closeLogFiles
  by_cases early : s.buf = [] ∨ s.outputs = []
  · rw [if_pos early]
    constructor
    · exact .inl
    · rintro (rest | ⟨outputs, buf, _⟩)
      · exact rest
      · rcases early with none | none
        · exact absurd none buf
        · exact absurd none outputs
  · obtain ⟨buf, outputs⟩ := not_or.mp early
    rw [if_neg early]
    have left : (s.poll behind true).1.buf = [] ↔ (s.queue = [] → s.buf = []) := poll_buf_eq_nil s
    constructor
    · rintro ⟨flushed, _⟩
      exact .inr ⟨outputs, buf, fun queue => buf (left.mp flushed queue)⟩
    · rintro (⟨none, _⟩ | ⟨_, _, queue⟩)
      · exact absurd none buf
      · exact ⟨left.mpr fun none => absurd none queue, pending_of_empty (poll_queue s true)⟩

theorem closeLogFiles_destroyed (s : State File RecordSize) :
    (s.closeLogFiles behind).1.destroyed = s.destroyed := by
  unfold State.closeLogFiles
  split
  · rfl
  · exact (pours_poll s true).destroyed

theorem serial_closeLogFiles
    (step : serial behind QCap formatToN s .closeLogFiles = some (next, events)) :
    next = (s.closeLogFiles behind).1 ∧ events = (s.closeLogFiles behind).2 := by
  have alive := alive_of_serial step
  unfold serial at step
  rw [if_neg (by rw [alive]; exact Bool.false_ne_true)] at step
  exact outcome_of_some step

theorem serial_setLogFile {file : File}
    (step : serial behind QCap formatToN s (.setLogFile file) = some (next, events)) :
    next = { (s.closeLogFiles behind).1 with outputs := [file] } ∧
      events = (s.closeLogFiles behind).2 ++ [.attached file] := by
  have alive := alive_of_serial step
  unfold serial at step
  rw [if_neg (by rw [alive]; exact Bool.false_ne_true)] at step
  exact outcome_of_some step

/-- The files that a call closes. -/
def State.closedBy (s : State File RecordSize) : Action File Message RecordSize → List File
  | .closeLogFiles => s.closable
  | .setLogFile _ => s.closable
  | .destroy => if s.queue = [] then s.closable else []
  | _ => []

/-- The files that a call attaches. -/
def attachedBy : Action File Message RecordSize → List File
  | .setLogFile file => [file]
  | _ => []

theorem destroy_takesAway (s : State File RecordSize) :
    TakesAway behind s (s.destroy behind).1 (if s.queue = [] then s.closable else []) []
      (s.destroy behind).2 := by
  let polled := (s.stopBackgroundThread behind).andThen fun after => after.poll behind true
  have pours : Pours behind s polled.1 polled.2 := pours_lastPoll s
  have empty : polled.1.queue = [] := poll_queue _ true
  have flushed : polled.1.buf = [] ↔ (s.queue = [] → s.buf = []) := lastPoll_buf_eq_nil s
  have files : polled.1.closable = if s.queue = [] then s.closable else [] := by
    unfold State.closable
    rw [pours.outputs]
    by_cases queue : s.queue = []
    · rw [if_pos queue]
      by_cases buf : s.buf = []
      · rw [if_pos buf, if_pos (flushed.mpr fun _ => buf)]
      · rw [if_neg buf, if_neg fun none => buf (flushed.mp none queue)]
    · rw [if_neg queue, if_pos (flushed.mpr fun none => absurd none queue)]
  obtain ⟨middle, told, closing, buf, queue, consumed, same⟩ :=
    (closeLogFiles_takesAway behind polled.1).split
  refine ⟨middle, polled.2 ++ told, pours.trans closing, buf, queue, consumed, ?_⟩
  show polled.2 ++ (polled.1.closeLogFiles behind).2 ++ [] = _
  rw [same, files, List.append_nil, List.append_assoc]

/-- Every call that takes outputs away. -/
theorem takesAway_of_serial (leaves : ¬ s.Keeps action)
    (step : serial behind QCap formatToN s action = some (next, events)) :
    TakesAway behind s next (s.closedBy action) (attachedBy action) events := by
  cases action with
  | closeLogFiles =>
    obtain ⟨rfl, rfl⟩ := serial_closeLogFiles step
    exact closeLogFiles_takesAway behind s
  | setLogFile file =>
    obtain ⟨rfl, rfl⟩ := serial_setLogFile step
    obtain ⟨middle, told, pours, buf, queue, consumed, same⟩ :=
      (closeLogFiles_takesAway behind s).split
    refine ⟨middle, told, pours, buf, queue, consumed, ?_⟩
    rw [same, List.map_nil, List.append_nil, List.append_assoc]
    rfl
  | destroy =>
    obtain ⟨rfl, rfl⟩ := destroy_of_serial step
    exact destroy_takesAway s
  | _ => exact absurd (by exact trivial) leaves

/-- Closing and attaching files writes nothing and logs nothing. -/
theorem silent_tail (files news : List File) :
    (∀ entry, written entry (files.map .fclosed ++ news.map .attached :
      List (Event File RecordSize)) = []) ∧
    loggedSince 0 (files.map .fclosed ++ news.map .attached : List (Event File RecordSize)) =
      [] := by
  obtain ⟨_, unlogged, unwritten⟩ := @silent_fclosed File RecordSize files
  have attached : (∀ entry,
        written entry (news.map .attached : List (Event File RecordSize)) = []) ∧
      loggedSince 0 (news.map .attached : List (Event File RecordSize)) = [] := by
    induction news with
    | nil => exact ⟨fun _ => rfl, by unfold loggedSince; rfl⟩
    | cons file news inductionHypothesis => exact inductionHypothesis
  refine ⟨fun entry => ?_, ?_⟩
  · rw [written_append, unwritten, attached.1]
    rfl
  · rw [loggedSince_append, unlogged, Nat.zero_sub, attached.2]
    rfl

theorem TakesAway.logged {files news : List File}
    (takes : TakesAway behind s next files news events) :
    loggedSince 0 events = [] := by
  obtain ⟨middle, told, pours, _, _, _, rfl⟩ := takes.split
  rw [loggedSince_append, pours.logged, Nat.zero_sub, (silent_tail files news).2]
  rfl

/-- Only outputs are written to. -/
theorem TakesAway.writes {files news : List File}
    (takes : TakesAway behind s next files news events)
    {entry : Nat} {file : File} {bytes : List UInt8} (wrote : .fwrote entry file bytes ∈ events) :
    file ∈ s.outputs := by
  obtain ⟨middle, told, pours, _, _, _, rfl⟩ := takes.split
  rcases List.mem_append.mp wrote with poured | tail
  · obtain ⟨_, _, _, same, member⟩ := pours.writes _ poured
    cases same
    exact member
  · rcases List.mem_append.mp tail with closed | attached
    · obtain ⟨_, _, same⟩ := List.mem_map.mp closed
      cases same
    · obtain ⟨_, _, same⟩ := List.mem_map.mp attached
      cases same

/-- What a call writes that takes outputs away, it writes as any other call. -/
theorem PassedOn.takesAway {files news : List File} (passedOn : PassedOn behind m s trace)
    (takes : TakesAway behind s next files news events) {entry : Nat}
    (less : entry < m.outputs.length) :
    written entry (trace ++ events) ++ (next.buf ++ next.pending behind) =
      m.buf ++ m.pending behind ++ copies behind (loggedSince 0 (trace ++ events)) := by
  obtain ⟨middle, told, pours, buf, queue, consumed, rfl⟩ := takes.split
  have poured := (passedOn.pours pours).passed entry less
  obtain ⟨unwritten, unlogged⟩ := @silent_tail File RecordSize files news
  have pending : next.pending behind = middle.pending behind := by
    unfold State.pending
    rw [queue, consumed]
  rw [← List.append_assoc trace, written_append, unwritten, loggedSince_append, Nat.zero_sub,
    unlogged, List.append_nil, List.append_nil, buf, pending]
  exact poured

/-- In any step, what waited for an output and what is logged is written to it or still waits. -/
theorem PassedOn.any (passedOn : PassedOn behind m s trace)
    (step : serial behind QCap formatToN s action = some (next, events)) {entry : Nat}
    (less : entry < m.outputs.length) :
    written entry (trace ++ events) ++ (next.buf ++ next.pending behind) =
      m.buf ++ m.pending behind ++ copies behind (loggedSince 0 (trace ++ events)) := by
  by_cases keeps : s.Keeps action
  · exact (passedOn.step keeps step).passed entry less
  · exact passedOn.takesAway (takesAway_of_serial keeps step) less

/-- Whoever flushes records writes to every output. -/
theorem exists_fwrote_writeFile (waiting : s.buf ≠ []) {file : File}
    (member : file ∈ s.outputs) : ∃ entry bytes, .fwrote entry file bytes ∈ s.writeFile.2 := by
  obtain ⟨entry, inside, rfl⟩ := List.getElem_of_mem member
  refine ⟨entry, s.buf, ?_⟩
  unfold State.writeFile
  rw [if_neg waiting]
  refine List.mem_map.mpr ⟨(s.outputs[entry], entry), ?_, rfl⟩
  exact List.mk_mem_zipIdx_iff_getElem?.mpr (List.getElem?_eq_getElem inside)

variable (behind) in
theorem exists_fwrote_poll (queue : s.queue ≠ []) (buf : s.buf ≠ []) {file : File}
    (member : file ∈ s.outputs) :
    ∃ entry bytes, .fwrote entry file bytes ∈ (s.poll behind true).2 := by
  have waiting : (s.tryConsumeAll behind).buf ≠ [] :=
    fun none => buf (List.append_eq_nil_iff.mp none).1
  unfold State.poll
  rw [if_neg queue]
  by_cases threshold : flushThreshold RecordSize ≤ (s.tryConsumeAll behind).buf.length
  · obtain ⟨entry, bytes, wrote⟩ := exists_fwrote_writeFile waiting member
    refine ⟨entry, bytes, List.mem_append_left _ ?_⟩
    rw [if_pos threshold]
    exact wrote
  · obtain ⟨entry, bytes, wrote⟩ := exists_fwrote_writeFile waiting member
    refine ⟨entry, bytes, List.mem_append_right _ ?_⟩
    rw [if_neg threshold]
    exact wrote

variable (behind QCap formatToN) in
/-- A record is logged, and a poll flushes it, at any time. -/
theorem exists_flush [Inhabited Message] (alive : m.destroyed = false) :
    ∃ s after next events,
      Transitions.ReachesBy State.Keeps (serial behind QCap formatToN) m s after ∧
      serial behind QCap formatToN s (.poll true : Action File Message RecordSize) =
        some (next, events) ∧ next.buf = [] ∧ next.pending behind = [] := by
  have polls : ∀ s : State File RecordSize, s.destroyed = false → s.queue ≠ [] →
      ∃ next events, serial behind QCap formatToN s (.poll true : Action File Message RecordSize) =
        some (next, events) ∧ next.buf = [] ∧ next.pending behind = [] := by
    intro s awake queue
    refine ⟨(s.poll behind true).1, (s.poll behind true).2, ?_,
      (poll_buf_eq_nil s).mpr fun none => absurd none queue, pending_of_empty (poll_queue s true)⟩
    unfold serial
    rw [if_neg (by rw [awake]; exact Bool.false_ne_true)]
  by_cases queue : m.queue = []
  · -- the queue has room for a record, and an error passes every level
    let slot : FixedSizeRecord RecordSize := ⟨Vector.replicate RecordSize 0, 0⟩
    let record := makeRecord formatToN (default : Message) slot
    have level : m.logLevel.value ≤ LogLevel.error.value := by
      cases m.logLevel <;> decide
    have room : m.queue.length < QCap.value.toNat := by
      rw [queue]
      exact QCap.pos
    have logs : serial behind QCap formatToN m (.log .error default slot) =
        some ({ m with queue := m.queue ++ [record] },
          [.logged (m.consumed + m.queue.length) record]) := by
      unfold serial
      rw [if_neg (by rw [alive]; exact Bool.false_ne_true)]
      dsimp only [State.log]
      rw [if_pos level, if_pos room]
    obtain ⟨next, events, polled⟩ := polls { m with queue := m.queue ++ [record] } alive
      (List.append_ne_nil_of_right_ne_nil _ (List.cons_ne_nil _ _))
    exact ⟨_, _, next, events, .next .start (by exact trivial) logs, polled⟩
  · obtain ⟨next, events, polled⟩ := polls m alive queue
    exact ⟨m, [], next, events, .start, polled⟩

variable (behind QCap formatToN) in
/-- The first output gets nothing but what is logged from now on exactly when nothing waits. -/
theorem fresh_iff [Inhabited Message] (alive : m.destroyed = false) (some : 0 < m.outputs.length) :
    (∀ s after, Transitions.ReachesBy State.Keeps (serial behind QCap formatToN) m s after →
      ∀ action next more, serial behind QCap formatToN s action = .some (next, more) →
      written 0 (after ++ more) <+: copies behind (loggedSince 0 (after ++ more))) ↔
    m.buf = [] ∧ m.pending behind = [] := by
  constructor
  · intro fresh
    obtain ⟨s, after, next, more, run, step, buf, pending⟩ :=
      exists_flush behind QCap formatToN alive
    have passed := (passedOn_of_reachesBy run).any step some
    have short := (fresh s after run _ next more step).length_le
    rw [buf, pending, List.append_nil, List.append_nil] at passed
    rw [passed, List.length_append, List.length_append] at short
    exact ⟨List.eq_nil_of_length_eq_zero (by omega), List.eq_nil_of_length_eq_zero (by omega)⟩
  · rintro ⟨buf, pending⟩ s after run action next more step
    have passed := (passedOn_of_reachesBy run).any step some
    rw [buf, pending, List.nil_append, List.nil_append] at passed
    exact ⟨_, passed⟩

end Leaving

/-! ### When a step switches cleanly -/

section Steps

variable [DecidableEq File] {behind : Nat → Nat → UInt8} {QCap : MPMCQueue.Capacity}
  {formatToN : FormatToN Message} {logLevel : LogLevel} {stdout : File}
  {m s next : State File RecordSize} {before trace events : List (Event File RecordSize)}
  {action : Action File Message RecordSize}

theorem countP_closes_takesAway {files news : List File}
    (takes : TakesAway behind s next files news events) (file : File) :
    events.countP (Event.closes file) = files.count file := by
  obtain ⟨middle, told, pours, _, _, _, rfl⟩ := takes.split
  have attached : (news.map (Event.attached : File → Event File RecordSize)).countP
      (Event.closes file) = 0 := by
    refine List.countP_eq_zero.mpr fun event member => ?_
    obtain ⟨other, _, rfl⟩ := List.mem_map.mp member
    exact Bool.false_ne_true
  rw [List.countP_append, List.countP_append, pours.countP_closes, countP_closes_fclosed, attached,
    Nat.zero_add, Nat.add_zero]

/-- A file that leaves is closed as often as the call closes it. -/
theorem countP_closes_since {file : File}
    (since : Since behind QCap formatToN logLevel stdout m s trace) :
    (trace ++ events).countP (Event.closes file) = events.countP (Event.closes file) := by
  rw [List.countP_append, countP_closes_of_reachesBy file since.2, Nat.zero_add]

/-- A call closes each of the outputs once exactly when it closes all of them and none is there
twice. -/
theorem closed_iff {files news : List File}
    (run : Transitions.Reaches (serial behind QCap formatToN) (constructed logLevel stdout) s
      before)
    (takes : TakesAway behind s next files news events)
    (all : files = s.outputs ∨ files = []) :
    (∀ file, file ∈ s.outputs → ∀ m trace,
      Since behind QCap formatToN logLevel stdout m s trace → file ∈ m.outputs →
      (trace ++ events).countP (Event.closes file) = 1) ↔
    s.outputs = [] ∨ files = s.outputs ∧ s.outputs.Nodup := by
  constructor
  · intro closed
    have once : ∀ file ∈ s.outputs, files.count file = 1 := by
      intro file member
      rw [← countP_closes_takesAway takes]
      exact closed file member s [] ⟨⟨before, run⟩, .start⟩ member
    rcases all with same | none
    · subst same
      exact .inr ⟨rfl, List.nodup_iff_count_eq_one.mpr once⟩
    · refine .inl (List.eq_nil_iff_forall_not_mem.mpr fun file member => ?_)
      have one := once file member
      rw [none] at one
      cases one
  · rintro (none | ⟨same, distinct⟩) file member m trace since _
    · rw [none] at member
      cases member
    · rw [countP_closes_since since, countP_closes_takesAway takes, same]
      exact List.nodup_iff_count_eq_one.mp distinct file member

/-! ### Each call -/

/-- A call that keeps the outputs has nothing to do. -/
theorem switchesCleanly_of_keeps (keeps : s.Keeps action) (other : action ≠ .closeLogFiles)
    (step : serial behind QCap formatToN s action = some (next, events)) :
    SwitchesCleanly behind QCap formatToN logLevel stdout s action next events := by
  have outputs : s.outputs <+: next.outputs := ((passedOn_start s).step keeps step).outputs
  refine ⟨fun same => absurd same other, fun file leaves => ?_, fun file same => ?_,
    fun file same => ?_⟩
  · have gone : file ∈ s.outputs ∧ file ∉ next.outputs := by
      cases action with
      | setLogFile file => cases keeps
      | destroy => cases keeps
      | _ => exact leaves
    exact absurd (outputs.subset gone.1) gone.2
  · rw [same] at keeps
    cases keeps
  · rw [same] at keeps
    cases keeps

theorem switchesCleanly_closeLogFiles_iff
    (run : Transitions.Reaches (serial behind QCap formatToN) (constructed logLevel stdout) s
      before)
    (step : serial behind QCap formatToN s .closeLogFiles = some (next, events)) :
    SwitchesCleanly behind QCap formatToN logLevel stdout s .closeLogFiles next events ↔
      s.Switches behind (.closeLogFiles : Action File Message RecordSize) := by
  obtain ⟨rfl, rfl⟩ := serial_closeLogFiles step
  have outputs := closeLogFiles_outputs behind s
  have closes := closed_iff run (closeLogFiles_takesAway behind s) (closable_cases s)
  rw [closable_iff] at closes
  constructor
  · intro clean
    refine closes.mp fun file member => clean.closed file ⟨member, ?_⟩
    rw [clean.emptied rfl]
    exact List.not_mem_nil
  · intro switches
    refine ⟨fun _ => ?_, fun file leaves => closes.mpr switches file leaves.1,
      fun _ same => (by cases same), fun _ same => (by cases same)⟩
    rw [outputs]
    rcases switches with none | ⟨buf, _⟩
    · rw [none, ite_self]
    · rw [if_neg buf]

theorem switchesCleanly_destroy_iff
    (run : Transitions.Reaches (serial behind QCap formatToN) (constructed logLevel stdout) s
      before)
    (step : serial behind QCap formatToN s .destroy = some (next, events)) :
    SwitchesCleanly behind QCap formatToN logLevel stdout s .destroy next events ↔
      s.Switches behind (.destroy : Action File Message RecordSize) := by
  obtain ⟨rfl, rfl⟩ := destroy_of_serial step
  have all : (if s.queue = [] then s.closable else []) = s.outputs ∨
      (if s.queue = [] then s.closable else []) = [] := by
    split
    · exact closable_cases s
    · exact .inr rfl
  have closes := closed_iff run (destroy_takesAway s) all
  have when : (s.outputs = [] ∨ (if s.queue = [] then s.closable else []) = s.outputs ∧
      s.outputs.Nodup) ↔ s.Switches behind (.destroy : Action File Message RecordSize) := by
    show _ ↔ s.outputs = [] ∨ s.buf ≠ [] ∧ s.queue = [] ∧ s.outputs.Nodup
    by_cases queue : s.queue = []
    · rw [if_pos queue, closable_iff]
      exact or_congr_right (and_congr_right fun _ => (and_iff_right queue).symm)
    · rw [if_neg queue]
      constructor
      · rintro (none | ⟨none, _⟩)
        · exact .inl none
        · exact .inl none.symm
      · rintro (none | ⟨_, same, _⟩)
        · exact .inl none
        · exact absurd same queue
  rw [← when, ← closes]
  exact ⟨fun clean => clean.closed, fun closed => ⟨fun same => (by cases same), closed,
    fun _ same => (by cases same), fun _ same => (by cases same)⟩⟩

theorem switchesCleanly_setLogFile_iff [Inhabited Message] {file : File}
    (run : Transitions.Reaches (serial behind QCap formatToN) (constructed logLevel stdout) s
      before)
    (step : serial behind QCap formatToN s (.setLogFile file) = some (next, events)) :
    SwitchesCleanly behind QCap formatToN logLevel stdout s (.setLogFile file) next events ↔
      s.Switches behind (.setLogFile file : Action File Message RecordSize) := by
  have alive := alive_of_serial step
  have takes := takesAway_of_serial (fun keeps => by cases keeps) step
  have closes := closed_iff run takes (closable_cases s)
  obtain ⟨rfl, rfl⟩ := serial_setLogFile step
  have goesOn : (s.closeLogFiles behind).1.destroyed = false :=
    (closeLogFiles_destroyed s).trans alive
  have fresh := fresh_iff behind QCap formatToN
    (m := { (s.closeLogFiles behind).1 with outputs := [file] }) goesOn (Nat.succ_pos 0)
  have rest := closeLogFiles_rest behind s
  constructor
  · intro clean
    have waits := rest.mp (fresh.mp (clean.fresh file rfl).2)
    rcases (closable_iff s).mp (closes.mp clean.closed) with none | ⟨buf, distinct⟩
    · obtain ⟨buf, pending⟩ | ⟨outputs, _⟩ := waits
      · exact .inl ⟨none, buf, pending⟩
      · exact absurd none outputs
    · obtain ⟨nothing, _⟩ | ⟨outputs, _, queue⟩ := waits
      · exact absurd nothing buf
      · refine .inr ⟨outputs, buf, queue, distinct, fun member => ?_⟩
        obtain ⟨entry, bytes, wrote⟩ := exists_fwrote_poll behind queue buf member
        refine (clean.fresh file rfl).1 entry bytes (List.mem_append_left _ ?_)
        unfold State.closeLogFiles
        rw [if_neg (not_or.mpr ⟨buf, outputs⟩)]
        exact List.mem_append_left _ wrote
  · intro switches
    have closing : s.outputs = [] ∨ s.buf ≠ [] ∧ s.outputs.Nodup :=
      switches.imp (fun nothing => nothing.1) fun ⟨_, buf, _, distinct, _⟩ => ⟨buf, distinct⟩
    have waits := rest.mpr (switches.imp (fun nothing => nothing.2)
      fun ⟨outputs, buf, queue, _⟩ => ⟨outputs, buf, queue⟩)
    have new : file ∉ s.outputs := by
      rcases switches with ⟨none, _⟩ | ⟨_, _, _, _, new⟩
      · rw [none]
        exact List.not_mem_nil
      · exact new
    refine ⟨fun same => (by cases same), closes.mpr ((closable_iff s).mpr closing), ?_, ?_⟩
    · intro other _ m trace since entry less
      have passed := (passedOn_of_reachesBy since.2).takesAway takes less
      have logged := takes.logged
      rw [loggedSince_append, Nat.zero_sub, logged, List.append_nil] at passed
      have nothing : (s.closeLogFiles behind).1.buf ++ (s.closeLogFiles behind).1.pending behind =
          [] := by
        rw [waits.1, waits.2]
        rfl
      have whole : written entry (trace ++ ((s.closeLogFiles behind).2 ++ [.attached file])) ++ [] =
          m.buf ++ m.pending behind ++ copies behind (loggedSince 0 trace) := by
        rw [← nothing]
        exact passed
      rw [List.append_nil] at whole
      exact ⟨_, whole.symm⟩
    · intro other same
      cases same
      exact ⟨fun entry bytes wrote => new (takes.writes wrote), fresh.mpr waits⟩

/-- A step closes and switches as it should exactly when the state it finds is the right one. -/
theorem switchesCleanly_iff [Inhabited Message]
    (run : Transitions.Reaches (serial behind QCap formatToN) (constructed logLevel stdout) s
      before)
    (step : serial behind QCap formatToN s action = some (next, events)) :
    SwitchesCleanly behind QCap formatToN logLevel stdout s action next events ↔
      s.Switches behind action := by
  cases action with
  | closeLogFiles => exact switchesCleanly_closeLogFiles_iff run step
  | setLogFile file => exact switchesCleanly_setLogFile_iff run step
  | destroy => exact switchesCleanly_destroy_iff run step
  | _ =>
    exact iff_of_true (switchesCleanly_of_keeps (by exact trivial) (fun same => by cases same) step)
      (by exact trivial)

/-- A run in which every step closes the files that leave once, and every switch is clean, is a run
in which every step finds the right state. -/
theorem cleanRun_iff [Inhabited Message] :
    Transitions.ReachesBy (fun s (action : Action File Message RecordSize) =>
        ∀ next events, serial behind QCap formatToN s action = some (next, events) →
          SwitchesCleanly behind QCap formatToN logLevel stdout s action next events)
      (serial behind QCap formatToN) (constructed logLevel stdout) s trace ↔
    Transitions.ReachesBy (State.Switches behind) (serial behind QCap formatToN)
      (constructed logLevel stdout) s trace := by
  constructor
  · intro run
    exact run.imp fun _ _ _ next events before step clean =>
      (switchesCleanly_iff before step).mp (clean next events step)
  · intro run
    exact run.imp fun _ _ _ _ _ before _ switches next events step =>
      (switchesCleanly_iff before step).mpr switches

end Steps

section Example

/-- A record is logged and flushed, so that the buffer is empty. -/
def flushed : List (Action Unit Text 2) :=
  [.log .info twoBytes ⟨.replicate 2 0, 0⟩, .poll true]

/-- Then `closeLogFiles` leaves `m_outputs` as it is. -/
theorem not_switchesCleanly_flushed :
    ¬ ∀ s trace (action : Action Unit Text 2) next events,
      Transitions.Reaches (serial (fun _ _ => 0) MPMCQueue.oneSlot textToN)
        (constructed .debug ()) s trace →
      serial (fun _ _ => 0) MPMCQueue.oneSlot textToN s action = some (next, events) →
      SwitchesCleanly (fun _ _ => 0) MPMCQueue.oneSlot textToN .debug () s action next events := by
  intro always
  have closes : (Transitions.execute (serial (fun _ _ => 0) MPMCQueue.oneSlot textToN)
      (constructed .debug () : State Unit 2) flushed).bind (fun reached =>
        (serial (fun _ _ => 0) MPMCQueue.oneSlot textToN reached.1 .closeLogFiles).map
          fun closed => closed.1.outputs) = some [()] := by
    decide +kernel
  obtain ⟨⟨s, trace⟩, executed, step⟩ := Option.bind_eq_some_iff.mp closes
  obtain ⟨⟨next, events⟩, closed, outputs⟩ := Option.map_eq_some_iff.mp step
  have clean := always s trace .closeLogFiles next events
    (Transitions.reaches_of_execute executed) closed
  rw [clean.emptied rfl] at outputs
  cases outputs

end Example

end Serial

end Logger

end Sheep
