/-
This file finds out when loggers that are alive together keep to themselves. The functor
of `poll` copies to the object in whose first `poll` it was made, so a poll of any other
object takes the records out of its own queue and puts them into the buffer of that one.

A poll changes no other logger exactly when it is a poll of the object of the functor, or
the functor copies nothing. In a run of such polls every logger writes its own records,
in the order of their tickets, and nothing else.
-/

import Sheep.Loggers
import Sheep.LogRecords

namespace Sheep

namespace Loggers

open Logger (FixedSizeRecord FormatToN LogLevel makeRecord flushThreshold)
open Logger.Serial (copies Outcome)

variable {Index File Message : Type} {RecordSize : Nat} [DecidableEq Index]

/-! ### What is to hold -/

/-- The bytes that a logger writes to an output. -/
def written (logger : Index) (entry : Nat) : List (Event Index File RecordSize) → List UInt8
  | [] => []
  | .fwrote other place _ bytes :: events =>
      if other = logger ∧ place = entry then bytes ++ written logger entry events
      else written logger entry events
  | _ :: events => written logger entry events

/-- A poll changes the queue, the buffer and the outputs of one logger. -/
def State.Frames (behind : Index → Nat → Nat → UInt8) (s : State Index File Message RecordSize) :
    Action Index Message RecordSize → Prop
  | .poll logger flushFile =>
      (∀ other, other ≠ logger →
        (s.poll behind logger flushFile).1.loggers other = s.loggers other) ∧
      ∀ event ∈ (s.poll behind logger flushFile).2, ∃ entry file bytes,
        event = .fwrote logger entry file bytes
  | _ => True

/-- Every logger has written to its outputs what has been logged to it, record by record in the
order of the tickets, and nothing else. -/
structure OnlyOwn (behind : Index → Nat → Nat → UInt8) (outputs : Index → List File)
    (trace : List (Event Index File RecordSize)) : Prop where
  outputs : ∀ logger entry file bytes, .fwrote logger entry file bytes ∈ trace →
    (outputs logger)[entry]? = some file
  records : ∀ logger entry, ∃ records : List (FixedSizeRecord RecordSize × Nat),
    (∀ record ∈ records, .logged logger record.2 record.1 ∈ trace) ∧
    records.map Prod.snd = List.range records.length ∧
    written logger entry trace = copies (behind logger) records

/-- The functor has been made for the logger that is polled, or is made now, or there is nothing in
the records that it comes to. -/
def State.PollsItself (s : State Index File Message RecordSize) :
    Action Index Message RecordSize → Prop
  | .poll logger _ =>
      s.functorThis logger = logger ∨
        ∀ record ∈ published (s.loggers logger).queue, record.size.toNat = 0
  | _ => True

/-! ### What a poll changes -/

section Poll

variable {behind : Index → Nat → Nat → UInt8} {s : State Index File Message RecordSize}
  {logger other : Index} {flushFile : Bool}

theorem modify_self
    (change : LoggerImpl File Message RecordSize → LoggerImpl File Message RecordSize) :
    (s.modify logger change).loggers logger = change (s.loggers logger) :=
  Function.update_self ..

theorem modify_other (different : other ≠ logger)
    (change : LoggerImpl File Message RecordSize → LoggerImpl File Message RecordSize) :
    (s.modify logger change).loggers other = s.loggers other :=
  Function.update_of_ne different ..

theorem append_nil (object : LoggerImpl File Message RecordSize) : object.append [] = object := by
  rw [LoggerImpl.append, List.append_nil]

theorem writeFile_other (different : other ≠ logger) :
    (s.writeFile logger).1.loggers other = s.loggers other := by
  unfold State.writeFile
  split
  · rfl
  · exact modify_other different _

variable (behind) in
omit [DecidableEq Index] in
theorem copied_eq_nil_iff : s.copied behind logger = [] ↔
    ∀ record ∈ published (s.loggers logger).queue, record.size.toNat = 0 := by
  rw [State.copied, copies, List.flatMap_eq_nil_iff]
  constructor
  · intro nothing record member
    obtain ⟨place, less, rfl⟩ := List.mem_iff_getElem.mp member
    have copied := nothing (_, (s.loggers logger).consumed + place)
      (List.mk_add_mem_zipIdx_iff_getElem?.mpr (List.getElem?_eq_getElem less))
    exact List.range_eq_nil.mp (List.map_eq_nil_iff.mp copied)
  · rintro empty ⟨record, ticket⟩ member
    rw [FixedSizeRecord.copied, empty record (List.fst_mem_of_mem_zipIdx member)]
    rfl

omit [DecidableEq Index] in
theorem copied_of_nil (none : published (s.loggers logger).queue = []) :
    s.copied behind logger = [] := by
  refine (copied_eq_nil_iff behind).mpr fun record member => ?_
  rw [none] at member
  cases member

/-- What a poll does after `try_consume_all`. -/
def State.flush (s : State Index File Message RecordSize) (logger : Index) (flushFile : Bool) :
    State Index File Message RecordSize × List (Event Index File RecordSize) :=
  let first := if flushThreshold RecordSize ≤ (s.loggers logger).buf.length then
    s.writeFile logger else (s, [])
  let second := if flushFile then first.1.writeFile logger else (first.1, [])
  (second.1, first.2 ++ second.2)

theorem poll_of_published (some : published (s.loggers logger).queue ≠ []) :
    s.poll behind logger flushFile =
      ({ s with consumeFunctor := .some (s.functorThis logger) }.tryConsumeAll behind logger).flush
        logger flushFile := if_neg some

/-- Whether the functor is made now or was made before, it copies the same. -/
theorem loggers_tryConsumeAll :
    ({ s with consumeFunctor := some (s.functorThis logger) }.tryConsumeAll behind logger).loggers =
      (s.tryConsumeAll behind logger).loggers := rfl

theorem flush_other (different : other ≠ logger) :
    (s.flush logger flushFile).1.loggers other = s.loggers other := by
  have first : (if flushThreshold RecordSize ≤ (s.loggers logger).buf.length then
      s.writeFile logger else (s, [])).1.loggers other = s.loggers other := by
    split
    · exact writeFile_other different
    · rfl
  cases flushFile
  · exact first
  · exact (writeFile_other different).trans first

/-- The object of the functor gets what is copied, and nothing else happens to other loggers. -/
theorem poll_other (different : other ≠ logger) :
    (s.poll behind logger flushFile).1.loggers other =
      if other = s.functorThis logger then (s.loggers other).append (s.copied behind logger)
      else s.loggers other := by
  by_cases none : published (s.loggers logger).queue = []
  · rw [State.poll, if_pos none, copied_of_nil none, append_nil, ite_self]
  · rw [poll_of_published none, flush_other different]
    by_cases this : other = s.functorThis logger
    · rw [if_pos this]
      show (State.modify _ (s.functorThis logger) _).loggers other = _
      rw [← this, modify_self, modify_other different]
      rfl
    · rw [if_neg this]
      show (State.modify _ (s.functorThis logger) _).loggers other = _
      rw [modify_other this, modify_other different]

theorem fwrote_of_writeFile {event : Event Index File RecordSize}
    (member : event ∈ (s.writeFile logger).2) : ∃ entry file bytes,
      event = .fwrote logger entry file bytes ∧ (s.loggers logger).outputs[entry]? = some file := by
  unfold State.writeFile at member
  split at member
  · cases member
  · obtain ⟨⟨file, entry⟩, place, rfl⟩ := List.mem_map.mp member
    exact ⟨entry, file, _, rfl, List.mk_mem_zipIdx_iff_getElem?.mp place⟩

theorem writeFile_outputs : ((s.writeFile logger).1.loggers logger).outputs =
    (s.loggers logger).outputs := by
  unfold State.writeFile
  split
  · rfl
  · rw [modify_self]
    rfl

theorem fwrote_of_flush {event : Event Index File RecordSize}
    (member : event ∈ (s.flush logger flushFile).2) : ∃ entry file bytes,
      event = .fwrote logger entry file bytes ∧ (s.loggers logger).outputs[entry]? = some file := by
  rcases List.mem_append.mp member with first | second
  · split at first
    · exact fwrote_of_writeFile first
    · cases first
  · cases flushFile
    · cases second
    · obtain ⟨entry, file, bytes, same, place⟩ := fwrote_of_writeFile second
      refine ⟨entry, file, bytes, same, ?_⟩
      rw [← place]
      split
      · rw [writeFile_outputs]
      · rfl

theorem tryConsumeAll_outputs : ((s.tryConsumeAll behind logger).loggers other).outputs =
    (s.loggers other).outputs := by
  have consumed : ((s.modify logger fun object =>
      object.consume (published object.queue).length).loggers other).outputs =
        (s.loggers other).outputs := by
    by_cases same : other = logger
    · rw [same, modify_self]
      rfl
    · rw [modify_other same]
  unfold State.tryConsumeAll
  by_cases this : other = s.functorThis logger
  · rw [this, modify_self, ← this]
    exact consumed
  · rw [modify_other this]
    exact consumed

theorem fwrote_of_poll {event : Event Index File RecordSize}
    (member : event ∈ (s.poll behind logger flushFile).2) : ∃ entry file bytes,
      event = .fwrote logger entry file bytes ∧ (s.loggers logger).outputs[entry]? = some file := by
  unfold State.poll at member
  split at member
  · cases member
  · obtain ⟨entry, file, bytes, same, place⟩ := fwrote_of_flush member
    rw [tryConsumeAll_outputs] at place
    exact ⟨entry, file, bytes, same, place⟩

/-- A poll keeps to its logger exactly when the functor is its own, or has nothing to copy. -/
theorem frames_iff (s : State Index File Message RecordSize)
    (action : Action Index Message RecordSize) :
    s.Frames behind action ↔ s.PollsItself action := by
  cases action with
  | log => exact Iff.rfl
  | publish => exact Iff.rfl
  | poll logger flushFile =>
    show _ ↔ s.functorThis logger = logger ∨ _
    rw [← copied_eq_nil_iff behind]
    constructor
    · rintro ⟨frame, _⟩
      refine or_iff_not_imp_left.mpr fun elsewhere => ?_
      have unchanged := frame (s.functorThis logger) elsewhere
      rw [poll_other elsewhere, if_pos rfl] at unchanged
      exact List.append_right_eq_self.mp (congrArg LoggerImpl.buf unchanged)
    · intro itself
      refine ⟨fun other different => ?_, fun event member => ?_⟩
      · rw [poll_other different]
        split
        · rename_i this
          rcases itself with own | nothing
          · exact absurd (this.trans own) different
          · rw [nothing, append_nil]
        · rfl
      · obtain ⟨entry, file, bytes, same, _⟩ := fwrote_of_poll member
        exact ⟨entry, file, bytes, same⟩

end Poll

/-! ### Accounts -/

section Accounts

variable {behind : Index → Nat → Nat → UInt8} {s next : State Index File Message RecordSize}
  {outputs : Index → List File} {trace events : List (Event Index File RecordSize)}
  {logger other : Index} {flushFile : Bool}
  {done waiting more : List (FixedSizeRecord RecordSize × Nat)}

theorem written_append (logger : Index) (entry : Nat)
    (first second : List (Event Index File RecordSize)) :
    written logger entry (first ++ second) =
      written logger entry first ++ written logger entry second := by
  induction first with
  | nil => rfl
  | cons event events inductionHypothesis =>
    cases event with
    | fwrote other place file bytes =>
      rw [List.cons_append, written, written, inductionHypothesis]
      split
      · rw [List.append_assoc]
      · rfl
    | logged other ticket record => exact inductionHypothesis

/-- What others write does not count. -/
theorem written_of_other (others : ∀ event ∈ events, ∃ other entry file bytes,
    event = .fwrote other entry file bytes ∧ other ≠ logger) (entry : Nat) :
    written logger entry events = [] := by
  induction events with
  | nil => rfl
  | cons event events inductionHypothesis =>
    obtain ⟨here, later⟩ := List.forall_mem_cons.mp others
    obtain ⟨other, place, file, bytes, rfl, different⟩ := here
    rw [written, if_neg fun same => different same.1]
    exact inductionHypothesis later

/-- The writes of one flush. -/
theorem written_flush (files : List File) (bytes : List UInt8) (entry start : Nat) :
    written logger entry ((files.zipIdx start).map fun output =>
        (.fwrote logger output.2 output.1 bytes : Event Index File RecordSize)) =
      if start ≤ entry ∧ entry < start + files.length then bytes else [] := by
  induction files generalizing start with
  | nil =>
    have never : ¬ (start ≤ entry ∧ entry < start + 0) := by omega
    rw [List.length_nil, if_neg never]
    rfl
  | cons file files inductionHypothesis =>
    rw [List.zipIdx_cons, List.map_cons, written, inductionHypothesis, List.length_cons]
    by_cases here : start = entry
    · rw [if_pos ⟨rfl, here⟩, if_neg (by omega), if_pos (by omega), List.append_nil]
    · rw [if_neg fun same => here same.2]
      by_cases inside : start + 1 ≤ entry ∧ entry < start + 1 + files.length
      · rw [if_pos inside, if_pos (by omega)]
      · rw [if_neg inside, if_neg (by omega)]

/-- The accounts of a logger: the records that it has written, and those in its buffer. -/
structure Accounts (behind : Index → Nat → Nat → UInt8)
    (object : LoggerImpl File Message RecordSize) (trace : List (Event Index File RecordSize))
    (logger : Index) (done waiting : List (FixedSizeRecord RecordSize × Nat)) : Prop where
  tickets : (done ++ waiting).map Prod.snd = List.range object.consumed
  logged : ∀ record ∈ done ++ waiting, .logged logger record.2 record.1 ∈ trace
  buf : object.buf = copies (behind logger) waiting
  written : ∀ entry, written logger entry trace =
    if entry < object.outputs.length then copies (behind logger) done else []
  queue : ∀ place record, object.queue[place]? = some (.written record) →
    .logged logger (object.consumed + place) record ∈ trace

theorem copies_append (memory : Nat → Nat → UInt8)
    (records more : List (FixedSizeRecord RecordSize × Nat)) :
    copies memory (records ++ more) = copies memory records ++ copies memory more :=
  List.flatMap_append

theorem accounts_start (logLevel : LogLevel) (files : List File) (logger : Index) :
    Accounts behind (⟨[], 0, logLevel, files, []⟩ : LoggerImpl File Message RecordSize) [] logger
      [] [] where
  tickets := rfl
  logged _ member := absurd member List.not_mem_nil
  buf := rfl
  written entry := (ite_self _).symm
  queue place record found := by cases found

/-- Events that write nothing of this logger change nothing. -/
theorem Accounts.append {object : LoggerImpl File Message RecordSize}
    (accounts : Accounts behind object trace logger done waiting)
    (silent : ∀ entry, Loggers.written logger entry events = []) :
    Accounts behind object (trace ++ events) logger done waiting where
  tickets := accounts.tickets
  logged record member := List.mem_append_left _ (accounts.logged record member)
  buf := accounts.buf
  written entry := by
    rw [written_append, silent, List.append_nil]
    exact accounts.written entry
  queue place record found := List.mem_append_left _ (accounts.queue place record found)

/-- A call of `log` takes a ticket. -/
theorem Accounts.claim {object : LoggerImpl File Message RecordSize}
    (accounts : Accounts behind object trace logger done waiting) (message : Message) :
    Accounts behind (object.setQueue (object.queue ++ [.claimed message])) trace logger done
      waiting where
  tickets := accounts.tickets
  logged := accounts.logged
  buf := accounts.buf
  written := accounts.written
  queue place record found := by
    refine accounts.queue place record ?_
    rw [LoggerImpl.setQueue, List.getElem?_append] at found
    split at found
    · exact found
    · rw [List.getElem?_singleton] at found
      split at found
      · cases found
      · cases found

/-- It writes its record. -/
theorem Accounts.publish {object : LoggerImpl File Message RecordSize}
    (accounts : Accounts behind object trace logger done waiting) (place : Nat)
    (record : FixedSizeRecord RecordSize) :
    Accounts behind (object.setQueue (object.queue.set place (.written record)))
      (trace ++ [.logged logger (object.consumed + place) record]) logger done waiting where
  tickets := accounts.tickets
  logged other member := List.mem_append_left _ (accounts.logged other member)
  buf := accounts.buf
  written entry := by
    rw [written_append]
    exact (List.append_nil _).trans (accounts.written entry)
  queue position other found := by
    rw [LoggerImpl.setQueue, List.getElem?_set] at found
    split at found
    · rename_i here
      split at found
      · cases found
        rw [← here]
        exact List.mem_append_right _ (List.mem_singleton_self _)
      · cases found
    · exact List.mem_append_left _ (accounts.queue position other found)

theorem getElem?_published {queue : List (Place Message RecordSize)} {place : Nat}
    {record : FixedSizeRecord RecordSize} (found : (published queue)[place]? = some record) :
    queue[place]? = some (.written record) := by
  induction queue generalizing place with
  | nil => cases found
  | cons first queue inductionHypothesis =>
    cases first with
    | claimed message => cases found
    | written other =>
      cases place with
      | zero =>
        cases found
        rfl
      | succ place => exact inductionHypothesis found

/-- `try_consume_all` with a functor that copies to the same logger. -/
theorem Accounts.consume {object : LoggerImpl File Message RecordSize}
    (accounts : Accounts behind object trace logger done waiting) :
    Accounts behind ((object.consume (published object.queue).length).append
        (copies (behind logger) ((published object.queue).zipIdx object.consumed)))
      trace logger done (waiting ++ (published object.queue).zipIdx object.consumed) where
  tickets := by
    rw [← List.append_assoc, List.map_append, accounts.tickets, List.zipIdx_map_snd,
      List.range_eq_range', List.range_eq_range']
    have joined := List.range'_append_1 (s := 0) (m := object.consumed)
      (n := (published object.queue).length)
    rw [Nat.zero_add] at joined
    exact joined
  logged record member := by
    rw [← List.append_assoc] at member
    rcases List.mem_append.mp member with old | new
    · exact accounts.logged record old
    · obtain ⟨less, found⟩ := List.mem_zipIdx_iff_le_and_getElem?_sub.mp new
      have taken := accounts.queue _ _ (getElem?_published found)
      rwa [Nat.add_sub_cancel' less] at taken
  buf := by
    rw [copies_append, ← accounts.buf]
    rfl
  written := accounts.written
  queue place record found := by
    have before : object.queue[(published object.queue).length + place]? =
        some (.written record) := by
      rw [← List.getElem?_drop]
      exact found
    have taken := accounts.queue _ record before
    rwa [← Nat.add_assoc] at taken

theorem Accounts.writeFile
    (accounts : Accounts behind (s.loggers logger) trace logger done waiting) :
    ∃ done waiting, Accounts behind ((s.writeFile logger).1.loggers logger)
      (trace ++ (s.writeFile logger).2) logger done waiting := by
  unfold State.writeFile
  by_cases empty : (s.loggers logger).buf = []
  · rw [if_pos empty, List.append_nil]
    exact ⟨done, waiting, accounts⟩
  · rw [if_neg empty, modify_self]
    refine ⟨done ++ waiting, [], ?_, ?_, rfl, fun entry => ?_, fun place record found => ?_⟩
    · rw [List.append_nil]
      exact accounts.tickets
    · intro record member
      rw [List.append_nil] at member
      exact List.mem_append_left _ (accounts.logged record member)
    · rw [written_append, written_flush, accounts.written, accounts.buf, copies_append,
        Nat.zero_add]
      show _ = if entry < (s.loggers logger).outputs.length then _ else _
      by_cases output : entry < (s.loggers logger).outputs.length
      · rw [if_pos output, if_pos ⟨Nat.zero_le _, output⟩, if_pos output]
      · rw [if_neg output, if_neg fun inside => output inside.2, if_neg output]
        rfl
    · exact List.mem_append_left _ (accounts.queue place record found)

theorem Accounts.flush
    (accounts : Accounts behind (s.loggers logger) trace logger done waiting) :
    ∃ done waiting, Accounts behind ((s.flush logger flushFile).1.loggers logger)
      (trace ++ (s.flush logger flushFile).2) logger done waiting := by
  have first : ∃ done waiting, Accounts behind
      ((if flushThreshold RecordSize ≤ (s.loggers logger).buf.length then
        s.writeFile logger else (s, [])).1.loggers logger)
      (trace ++ (if flushThreshold RecordSize ≤ (s.loggers logger).buf.length then
        s.writeFile logger else (s, [])).2) logger done waiting := by
    split
    · exact accounts.writeFile
    · exact ⟨done, waiting, by rw [List.append_nil]; exact accounts⟩
  obtain ⟨done, waiting, first⟩ := first
  unfold State.flush
  dsimp only
  rw [← List.append_assoc]
  cases flushFile
  · exact ⟨done, waiting, by rw [if_neg Bool.false_ne_true, List.append_nil]; exact first⟩
  · exact first.writeFile

/-- The logger of a poll that keeps to itself, after `try_consume_all`. -/
theorem tryConsumeAll_self (itself : s.functorThis logger = logger ∨ s.copied behind logger = []) :
    (s.tryConsumeAll behind logger).loggers logger =
      ((s.loggers logger).consume (published (s.loggers logger).queue).length).append
        (s.copied behind logger) := by
  unfold State.tryConsumeAll
  by_cases own : s.functorThis logger = logger
  · rw [own, modify_self, modify_self]
  · rw [modify_other (Ne.symm own), modify_self, itself.resolve_left own, append_nil]

/-- A poll that keeps to itself keeps the accounts of its logger. -/
theorem Accounts.poll (accounts : Accounts behind (s.loggers logger) trace logger done waiting)
    (itself : s.functorThis logger = logger ∨ s.copied behind logger = []) :
    ∃ done waiting, Accounts behind ((s.poll behind logger flushFile).1.loggers logger)
      (trace ++ (s.poll behind logger flushFile).2) logger done waiting := by
  by_cases none : published (s.loggers logger).queue = []
  · rw [State.poll, if_pos none, List.append_nil]
    exact ⟨done, waiting, accounts⟩
  · rw [poll_of_published none]
    have consumed := accounts.consume
    rw [← State.copied, ← tryConsumeAll_self itself, ← loggers_tryConsumeAll] at consumed
    exact consumed.flush

end Accounts

/-! ### A logger alone -/

section Alone

/-- A logger as it is when its calls are executed one at a time: a record that has not been written
yet has not been logged. -/
def LoggerImpl.view (object : LoggerImpl File Message RecordSize) :
    Logger.Serial.State File RecordSize where
  queue := published object.queue
  consumed := object.consumed
  logLevel := object.logLevel
  outputs := object.outputs
  buf := object.buf
  bgtRunning := false
  background := .exited
  destroyed := false

/-- An event without its logger. -/
def Event.view : Event Index File RecordSize → Logger.Serial.Event File RecordSize
  | .logged _ ticket record => .logged ticket record
  | .fwrote _ entry file bytes => .fwrote entry file bytes

/-- What a call leaves of a logger, and what it did. -/
def seen (logger : Index) (outcome : State Index File Message RecordSize ×
    List (Event Index File RecordSize)) : Outcome File RecordSize :=
  ((outcome.1.loggers logger).view, outcome.2.map Event.view)

variable {behind : Index → Nat → Nat → UInt8} {s : State Index File Message RecordSize}
  {logger : Index} {flushFile : Bool}

theorem published_drop (queue : List (Place Message RecordSize)) :
    published (queue.drop (published queue).length) = [] := by
  induction queue with
  | nil => rfl
  | cons first queue inductionHypothesis =>
    cases first with
    | claimed message => rfl
    | written record => exact inductionHypothesis

theorem seen_writeFile : seen logger (s.writeFile logger) = (s.loggers logger).view.writeFile := by
  unfold State.writeFile Logger.Serial.State.writeFile
  by_cases empty : (s.loggers logger).buf = []
  · rw [if_pos empty, if_pos (show (s.loggers logger).view.buf = [] from empty)]
    rfl
  · rw [if_neg empty, if_neg (show (s.loggers logger).view.buf ≠ [] from empty), seen, modify_self,
      List.map_map]
    rfl

omit [DecidableEq Index] in
theorem seen_andThen
    {first : State Index File Message RecordSize × List (Event Index File RecordSize)}
    (next : State Index File Message RecordSize →
      State Index File Message RecordSize × List (Event Index File RecordSize))
    {follow : Logger.Serial.State File RecordSize → Outcome File RecordSize}
    (alike : ∀ after, seen logger (next after) = follow (after.loggers logger).view) :
    seen logger ((next first.1).1, first.2 ++ (next first.1).2) =
      (seen logger first).andThen follow := by
  have second : follow (seen logger first).1 = seen logger (next first.1) := (alike first.1).symm
  rw [Outcome.andThen, second, seen, List.map_append]
  rfl

theorem seen_flush : seen logger (s.flush logger flushFile) =
    Outcome.andThen (if flushThreshold RecordSize ≤ (s.loggers logger).view.buf.length then
        (s.loggers logger).view.writeFile else ((s.loggers logger).view, []))
      fun after => if flushFile then after.writeFile else (after, []) := by
  have first : seen logger (if flushThreshold RecordSize ≤ (s.loggers logger).buf.length then
      s.writeFile logger else (s, [])) =
        if flushThreshold RecordSize ≤ (s.loggers logger).view.buf.length then
          (s.loggers logger).view.writeFile else ((s.loggers logger).view, []) := by
    rw [apply_ite (seen logger), seen_writeFile]
    rfl
  have second (after : State Index File Message RecordSize) :
      seen logger (if flushFile then after.writeFile logger else (after, [])) =
        if flushFile then (after.loggers logger).view.writeFile
          else ((after.loggers logger).view, []) := by
    rw [apply_ite (seen logger), seen_writeFile]
    rfl
  rw [← first]
  exact seen_andThen (fun after => if flushFile then after.writeFile logger else (after, [])) second

theorem view_tryConsumeAll
    (itself : s.functorThis logger = logger ∨ s.copied behind logger = []) :
    ((s.tryConsumeAll behind logger).loggers logger).view =
      (s.loggers logger).view.tryConsumeAll (behind logger) := by
  rw [tryConsumeAll_self itself]
  unfold LoggerImpl.view Logger.Serial.State.tryConsumeAll
  dsimp only [LoggerImpl.append, LoggerImpl.consume]
  rw [published_drop]
  rfl

/-- A poll that keeps to itself is a poll of a logger that is alone. -/
theorem seen_poll (itself : s.PollsItself (.poll logger flushFile)) :
    seen logger (s.poll behind logger flushFile) =
      (s.loggers logger).view.poll (behind logger) flushFile := by
  unfold Logger.Serial.State.poll
  by_cases none : published (s.loggers logger).queue = []
  · rw [State.poll, if_pos none, if_pos (show (s.loggers logger).view.queue = [] from none)]
    rfl
  · rw [poll_of_published none, if_neg (show (s.loggers logger).view.queue ≠ [] from none),
      ← view_tryConsumeAll (itself.imp_right (copied_eq_nil_iff behind).mpr),
      ← loggers_tryConsumeAll]
    exact seen_flush

end Alone

/-! ### Runs -/

section Runs

variable {behind : Index → Nat → Nat → UInt8} {s next : State Index File Message RecordSize}
  {outputs : Index → List File} {trace events : List (Event Index File RecordSize)}
  {logger other : Index} {flushFile : Bool}

/-- What holds as long as every poll keeps to itself: the outputs are what they were, every write
goes to one of them, and the accounts of every logger are right. -/
structure Kept (behind : Index → Nat → Nat → UInt8) (outputs : Index → List File)
    (s : State Index File Message RecordSize) (trace : List (Event Index File RecordSize)) :
    Prop where
  attached : ∀ logger, (s.loggers logger).outputs = outputs logger
  writes : ∀ logger entry file bytes, .fwrote logger entry file bytes ∈ trace →
    (outputs logger)[entry]? = some file
  accounts : ∀ logger, ∃ done waiting,
    Accounts behind (s.loggers logger) trace logger done waiting

theorem kept_start (behind : Index → Nat → Nat → UInt8) (logLevel : Index → LogLevel)
    (outputs : Index → List File) :
    Kept behind outputs (start logLevel outputs : State Index File Message RecordSize) [] where
  attached _ := rfl
  writes _ _ _ _ member := absurd member List.not_mem_nil
  accounts logger := ⟨[], [], accounts_start (logLevel logger) (outputs logger) logger⟩

theorem Kept.log (kept : Kept behind outputs s trace) (level : LogLevel) (message : Message) :
    Kept behind outputs (s.log logger level message) trace := by
  unfold State.log
  split
  · refine ⟨fun other => ?_, kept.writes, fun other => ?_⟩
    · by_cases same : other = logger
      · rw [same, modify_self]
        exact kept.attached logger
      · rw [modify_other same]
        exact kept.attached other
    · obtain ⟨done, waiting, accounts⟩ := kept.accounts other
      refine ⟨done, waiting, ?_⟩
      by_cases same : other = logger
      · subst same
        rw [modify_self]
        exact accounts.claim message
      · rw [modify_other same]
        exact accounts
  · exact kept

theorem Kept.publish {QCap : MPMCQueue.Capacity} {formatToN : FormatToN Message} {place : Nat}
    {slot : FixedSizeRecord RecordSize} (kept : Kept behind outputs s trace)
    (step : s.publish QCap formatToN logger place slot = some (next, events)) :
    Kept behind outputs next (trace ++ events) := by
  unfold State.publish at step
  split at step
  · split at step
    · cases step
      refine ⟨fun other => ?_, fun other entry file bytes member => ?_, fun other => ?_⟩
      · by_cases same : other = logger
        · rw [same, modify_self]
          exact kept.attached logger
        · rw [modify_other same]
          exact kept.attached other
      · rcases List.mem_append.mp member with old | new
        · exact kept.writes other entry file bytes old
        · cases List.mem_singleton.mp new
      · obtain ⟨done, waiting, accounts⟩ := kept.accounts other
        refine ⟨done, waiting, ?_⟩
        by_cases same : other = logger
        · subst same
          rw [modify_self]
          exact accounts.publish _ _
        · rw [modify_other same]
          exact accounts.append fun _ => rfl
    · cases step
  · cases step

theorem flush_outputs : ((s.flush logger flushFile).1.loggers other).outputs =
    (s.loggers other).outputs := by
  by_cases same : other = logger
  · subst same
    have first : ((if flushThreshold RecordSize ≤ (s.loggers other).buf.length then
        s.writeFile other else (s, [])).1.loggers other).outputs = (s.loggers other).outputs := by
      split
      · exact writeFile_outputs
      · rfl
    cases flushFile
    · exact first
    · exact writeFile_outputs.trans first
  · rw [flush_other same]

theorem poll_outputs : ((s.poll behind logger flushFile).1.loggers other).outputs =
    (s.loggers other).outputs := by
  unfold State.poll
  split
  · rfl
  · exact flush_outputs.trans tryConsumeAll_outputs

theorem Kept.poll (kept : Kept behind outputs s trace)
    (itself : s.PollsItself (.poll logger flushFile)) :
    Kept behind outputs (s.poll behind logger flushFile).1
      (trace ++ (s.poll behind logger flushFile).2) := by
  refine ⟨fun other => poll_outputs.trans (kept.attached other),
    fun other entry file bytes member => ?_, fun other => ?_⟩
  · rcases List.mem_append.mp member with old | new
    · exact kept.writes other entry file bytes old
    · obtain ⟨_, _, _, same, place⟩ := fwrote_of_poll new
      cases same
      rwa [kept.attached] at place
  · obtain ⟨done, waiting, accounts⟩ := kept.accounts other
    by_cases same : other = logger
    · subst same
      exact accounts.poll (itself.imp_right (copied_eq_nil_iff behind).mpr)
    · obtain ⟨frame, own⟩ := (frames_iff s (.poll logger flushFile)).mpr itself
      rw [frame other same]
      refine ⟨done, waiting, accounts.append (written_of_other fun event member => ?_)⟩
      obtain ⟨entry, file, bytes, rfl⟩ := own event member
      exact ⟨logger, entry, file, bytes, rfl, Ne.symm same⟩

/-- A step that keeps to itself keeps what holds. -/
theorem Kept.step {QCap : MPMCQueue.Capacity} {formatToN : FormatToN Message}
    {action : Action Index Message RecordSize} (kept : Kept behind outputs s trace)
    (itself : s.PollsItself action)
    (step : system behind QCap formatToN s action = some (next, events)) :
    Kept behind outputs next (trace ++ events) := by
  cases action with
  | log logger level message =>
    cases step
    rw [List.append_nil]
    exact kept.log level message
  | publish logger place slot => exact kept.publish step
  | poll logger flushFile =>
    have polled : s.poll behind logger flushFile = (next, events) := Option.some.inj step
    have after : Kept behind outputs (s.poll behind logger flushFile).1
        (trace ++ (s.poll behind logger flushFile).2) := kept.poll itself
    rw [polled] at after
    exact after

theorem Kept.onlyOwn (kept : Kept behind outputs s trace) : OnlyOwn behind outputs trace where
  outputs := kept.writes
  records logger entry := by
    obtain ⟨done, waiting, accounts⟩ := kept.accounts logger
    by_cases output : entry < (s.loggers logger).outputs.length
    · refine ⟨done, fun record member => accounts.logged record (List.mem_append_left _ member),
        ?_, ?_⟩
      · have tickets := congrArg (List.take done.length) accounts.tickets
        have short : done.length ≤ (s.loggers logger).consumed := by
          have lengths := congrArg List.length accounts.tickets
          rw [List.length_map, List.length_append, List.length_range] at lengths
          omega
        rw [List.map_append, List.take_range, Nat.min_eq_left short] at tickets
        rw [← tickets, List.take_left' (List.length_map _)]
      · rw [accounts.written, if_pos output]
    · refine ⟨[], fun record member => absurd member List.not_mem_nil, rfl, ?_⟩
      rw [accounts.written, if_neg output]
      rfl

/-- In every run in which each poll keeps to itself, every logger writes its own records only. -/
theorem kept_of_reachesBy {QCap : MPMCQueue.Capacity} {formatToN : FormatToN Message}
    {logLevel : Index → LogLevel}
    (run : Transitions.ReachesBy State.PollsItself (system behind QCap formatToN)
      (start logLevel outputs) s trace) : Kept behind outputs s trace :=
  run.invariant (Kept behind outputs) (kept_start behind logLevel outputs)
    fun _ _ _ _ _ _ kept itself step => kept.step itself step

/-- Loggers are isolated in exactly the runs in which each poll keeps to itself. -/
theorem isolated_iff {QCap : MPMCQueue.Capacity} {formatToN : FormatToN Message}
    {logLevel : Index → LogLevel} :
    Transitions.ReachesBy (State.Frames behind) (system behind QCap formatToN)
        (start logLevel outputs) s trace ∧ OnlyOwn behind outputs trace ↔
      Transitions.ReachesBy State.PollsItself (system behind QCap formatToN)
        (start logLevel outputs) s trace := by
  constructor
  · rintro ⟨run, _⟩
    exact run.mono fun s action => (frames_iff s action).mp
  · intro run
    exact ⟨run.mono fun s action => (frames_iff s action).mpr, (kept_of_reachesBy run).onlyOwn⟩

end Runs

section Example

open Logger (Text textToN twoBytes)

/-- One byte. -/
def oneByte : Text := ⟨[63], by decide⟩

/-- The first of two loggers is polled first. Then two bytes are logged to the second, which is
polled, and one byte to the first, which is polled again. -/
def mixed : List (Action Bool Text 2) :=
  let slot : FixedSizeRecord 2 := ⟨.replicate 2 0, 0⟩
  [.poll false false, .log true .info twoBytes, .publish true 0 slot, .poll true true] ++
    [.log false .info oneByte, .publish false 0 slot, .poll false true]

/-- The first logger writes what has been logged to the second. -/
theorem not_isolated_mixed :
    ¬ ∀ (s : State Bool Unit Text 2) trace,
      Transitions.Reaches (system (fun _ _ _ => 0) MPMCQueue.oneSlot textToN)
        (start (fun _ => .debug) fun _ => [()]) s trace →
      Transitions.ReachesBy (State.Frames fun _ _ _ => 0)
          (system (fun _ _ _ => 0) MPMCQueue.oneSlot textToN)
          (start (fun _ => .debug) fun _ => [()]) s trace ∧
        OnlyOwn (fun _ _ _ => 0) (fun _ => [()]) trace := by
  intro isolated
  have writes : ((Transitions.execute (system (fun _ _ _ => 0) MPMCQueue.oneSlot textToN)
      (start (fun _ => .debug) fun _ => [()] : State Bool Unit Text 2) mixed).map fun reached =>
        reached.2) = some [.logged true 0 (makeRecord textToN twoBytes ⟨.replicate 2 0, 0⟩),
          .logged false 0 (makeRecord textToN oneByte ⟨.replicate 2 0, 0⟩),
          .fwrote false 0 () [104, 105, 63]] := by
    rfl
  obtain ⟨⟨s, trace⟩, executed, same⟩ := Option.map_eq_some_iff.mp writes
  obtain ⟨records, logged, _, written⟩ :=
    (isolated s trace (Transitions.reaches_of_execute executed)).2.records false 0
  have events : trace = _ := same
  rw [events] at written logged
  cases records with
  | nil => cases written
  | cons record records =>
    -- what is logged to the first logger begins with its one byte
    obtain ⟨record, ticket⟩ := record
    have own : record = makeRecord textToN oneByte ⟨.replicate 2 0, 0⟩ := by
      rcases List.mem_cons.mp (logged _ List.mem_cons_self) with other | later
      · cases other
      · rcases List.mem_cons.mp later with first | flushed
        · exact (Event.logged.inj first).2.2
        · cases List.mem_singleton.mp flushed
    rw [own] at written
    have begins : some 104 = some (63 : UInt8) := congrArg List.head? written
    exact absurd begins (by decide)

end Example

end Loggers

end Sheep
