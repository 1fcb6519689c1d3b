/-
This file follows the records through the logger. A record gets its place when
its thread claims a ticket of the queue; as long as polls do not overlap, the
tickets are read one after the other, so the buffer and the files behind it are
always the texts of the first records in the order of their tickets.
-/

import Sheep.LogRecords

namespace Sheep

namespace MPMCQueue

/-- Who claims a ticket of the head, and which. -/
def Event.claimant {Thread Element : Type} : Event Thread Element → Option (Thread × Nat)
  | .claimedHead thread first _ => some (thread, first.toNat)
  | _ => none

/-- The claims of head tickets in a run, in order. -/
def claimants {Thread Element : Type} (trace : List (Event Thread Element)) :
    List (Thread × Nat) :=
  trace.filterMap Event.claimant

end MPMCQueue

namespace Logger

variable {Thread File Message : Type} {RecordSize : Nat}

/-! ### Records in their order -/

/-- The messages of a thread among records in some order. -/
def messagesOf [DecidableEq Thread] (thread : Thread) (order : List (Thread × Message)) :
    List Message :=
  (order.filter fun record => record.1 = thread).map (·.2)

/-- The messages a thread has logged, of those that passed the level check. -/
def loggedBy [DecidableEq Thread] (thread : Thread) :
    List (Event Thread RecordSize Message) → List Message
  | [] => []
  | .logged other message :: trace =>
      if other = thread then message :: loggedBy thread trace else loggedBy thread trace
  | _ :: trace => loggedBy thread trace

/-- The texts of records, one after the other. -/
def texts (formatted : Message → List UInt8) (order : List (Thread × Message)) : List UInt8 :=
  order.flatMap fun record => formatted record.2

/-- What a file holds after some flushes, if it is attached so many times. -/
def spread (times : Nat) (batches : List (List UInt8)) : List UInt8 :=
  batches.flatMap fun batch => (List.replicate times batch).flatten

section Lists

variable [DecidableEq Thread]

theorem messagesOf_append (thread : Thread) (order more : List (Thread × Message)) :
    messagesOf thread (order ++ more) = messagesOf thread order ++ messagesOf thread more := by
  rw [messagesOf, List.filter_append, List.map_append]
  rfl

theorem loggedBy_append (thread : Thread) (trace events : List (Event Thread RecordSize Message)) :
    loggedBy thread (trace ++ events) = loggedBy thread trace ++ loggedBy thread events := by
  induction trace with
  | nil => rfl
  | cons event trace inductionHypothesis =>
    cases event with
    | logged other message =>
      rw [List.cons_append, loggedBy, loggedBy, inductionHypothesis]
      split
      · rfl
      · rfl
    | queue event => exact inductionHypothesis
    | appended ticket bytes => exact inductionHypothesis

theorem logged_of_mem_loggedBy {thread : Thread} {message : Message}
    {trace : List (Event Thread RecordSize Message)} (member : message ∈ loggedBy thread trace) :
    .logged thread message ∈ trace := by
  induction trace with
  | nil => cases member
  | cons event trace inductionHypothesis =>
    cases event with
    | logged other message' =>
      rw [loggedBy] at member
      split at member
      · rename_i same
        rcases List.mem_cons.mp member with rfl | later
        · rw [same]
          exact List.mem_cons_self
        · exact List.mem_cons_of_mem _ (inductionHypothesis later)
      · exact List.mem_cons_of_mem _ (inductionHypothesis member)
    | queue event => exact List.mem_cons_of_mem _ (inductionHypothesis member)
    | appended ticket bytes => exact List.mem_cons_of_mem _ (inductionHypothesis member)

theorem loggedBy_map_queue (thread : Thread)
    (queued : List (MPMCQueue.Event Thread (FixedSizeRecord RecordSize))) :
    loggedBy thread (queued.map .queue : List (Event Thread RecordSize Message)) = [] := by
  induction queued with
  | nil => rfl
  | cons event queued inductionHypothesis => exact inductionHypothesis

theorem loggedBy_appends (thread : Thread) (behind : Nat → UInt8)
    (queued : List (MPMCQueue.Event Thread (FixedSizeRecord RecordSize))) :
    loggedBy thread (appends behind queued : List (Event Thread RecordSize Message)) = [] := by
  induction queued with
  | nil => rfl
  | cons event queued inductionHypothesis =>
    cases event <;> exact inductionHypothesis

end Lists

theorem spread_append (times : Nat) (batches more : List (List UInt8)) :
    spread times (batches ++ more) = spread times batches ++ spread times more :=
  List.flatMap_append

theorem spread_one (batches : List (List UInt8)) : spread 1 batches = batches.flatten := by
  induction batches with
  | nil => rfl
  | cons batch batches inductionHypothesis =>
    rw [spread, List.flatMap_cons, List.flatten_cons, ← inductionHypothesis, spread]
    simp

section SetPc

variable [DecidableEq Thread] (s : State Thread File RecordSize) (thread : Thread) (pc : Pc)

@[simp] theorem State.setPc_queue : (s.setPc thread pc).queue = s.queue := rfl

@[simp] theorem State.setPc_outputs : (s.setPc thread pc).outputs = s.outputs := rfl

@[simp] theorem State.setPc_buf : (s.setPc thread pc).buf = s.buf := rfl

@[simp] theorem State.setPc_files : (s.setPc thread pc).files = s.files := rfl

@[simp] theorem State.setPc_pc_self : (s.setPc thread pc).pc thread = pc :=
  Function.update_self ..

theorem State.setPc_pc_other {other : Thread} (different : other ≠ thread) :
    (s.setPc thread pc).pc other = s.pc other := Function.update_of_ne different ..

end SetPc

section WriteFile

variable [DecidableEq File] (s : State Thread File RecordSize)

@[simp] theorem writeFile_pc : s.writeFile.pc = s.pc := by
  rw [State.writeFile]
  split <;> rfl

@[simp] theorem writeFile_outputs : s.writeFile.outputs = s.outputs := by
  rw [State.writeFile]
  split <;> rfl

@[simp] theorem writeFile_buf : s.writeFile.buf = [] := by
  rw [State.writeFile]
  split
  · assumption
  · rfl

end WriteFile

/-- `writeFile` appends the buffer to a file as often as it is attached. -/
theorem writeFile_files [DecidableEq File] (s : State Thread File RecordSize) (file : File) :
    s.writeFile.files file = s.files file ++ spread (s.outputs.count file) [s.buf] := by
  have folded (outputs : List File) (files : File → List UInt8) :
      (outputs.foldl (fun files file => Function.update files file (files file ++ s.buf)) files)
        file = files file ++ (List.replicate (outputs.count file) s.buf).flatten := by
    induction outputs generalizing files with
    | nil => simp
    | cons output outputs inductionHypothesis =>
      rw [List.foldl_cons, inductionHypothesis, List.count_cons]
      by_cases this : output = file
      · subst this
        simp [List.replicate_succ]
      · rw [Function.update_of_ne (Ne.symm this), if_neg (by simpa using this), Nat.add_zero]
  rw [State.writeFile]
  split
  · rename_i empty
    simp [spread, empty]
  · simp [folded, spread]

/-! ### Inside the queue -/

section Queue

/-- Where a thread stands that logs, with the messages for which it has no ticket yet. -/
inductive Emplaces (formatToN : FormatToN Message) (order : List (Thread × Message))
    (thread : Thread) : MPMCQueue.Pc (FixedSizeRecord RecordSize) → List Message → Prop
  | fetch (message : Message) :
      Emplaces formatToN order thread (.fetchHead [makeRecord formatToN message]) [message]
  | await {ticket : UInt64} {message : Message} :
      order[ticket.toNat]? = some (thread, message) →
      Emplaces formatToN order thread (.awaitFree ticket (makeRecord formatToN message) []) []
  | construct {ticket : UInt64} {message : Message} :
      order[ticket.toNat]? = some (thread, message) →
      Emplaces formatToN order thread
        (.construct ticket (makeRecord formatToN message) (.bulk [])) []
  | publish {ticket : UInt64} : Emplaces formatToN order thread (.publish ticket (.bulk [])) []

/-- Where a thread stands that polls, when so many records have been read. -/
inductive Consumes (tail : UInt64) (read : Nat) :
    MPMCQueue.Pc (FixedSizeRecord RecordSize) → Prop
  | load : tail.toNat = read → Consumes tail read (.loadTail .many id)
  | test {count : Nat} : tail.toNat = read → Consumes tail read (.testFull .many id tail count)
  | cas {count : Nat} : tail.toNat = read → Consumes tail read (.casTail .many id tail count)
  | reload {count : Nat} : tail.toNat = read → Consumes tail read (.reloadTail .many id tail count)
  | read {ticket : UInt64} {count : Nat} : ticket.toNat = read → tail.toNat = read + 1 →
      Consumes tail read (.read ticket id (.drain id count))
  | destroy {ticket : UInt64} {count : Nat} : ticket.toNat + 1 = read → tail.toNat = read →
      Consumes tail read (.destroy ticket (.drain id count))
  | release {ticket : UInt64} {count : Nat} : ticket.toNat + 1 = read → tail.toNat = read →
      Consumes tail read (.release ticket (.drain id count))

variable {formatToN : FormatToN Message} {order more : List (Thread × Message)}
  {thread : Thread}

theorem Emplaces.append {pc : MPMCQueue.Pc (FixedSizeRecord RecordSize)}
    {pending : List Message} (emplaces : Emplaces formatToN order thread pc pending)
    (more : List (Thread × Message)) : Emplaces formatToN (order ++ more) thread pc pending := by
  have kept {ticket : UInt64} {message : Message}
      (found : order[ticket.toNat]? = some (thread, message)) :
      (order ++ more)[ticket.toNat]? = some (thread, message) := by
    rw [List.getElem?_append_left (List.getElem?_eq_some_iff.mp found).1]
    exact found
  cases emplaces with
  | fetch message => exact .fetch message
  | await found => exact .await (kept found)
  | construct found => exact .construct (kept found)
  | publish => exact .publish

variable [DecidableEq Thread] {QCap : MPMCQueue.Capacity}
  {queue next : MPMCQueue.State Thread (FixedSizeRecord RecordSize)}
  {queued : List (MPMCQueue.Event Thread (FixedSizeRecord RecordSize))}

/-- What a step of a thread that logs may do: claim the next ticket for its message, or go on, or
return. -/
inductive EmplaceStep (formatToN : FormatToN Message) (order : List (Thread × Message))
    (thread : Thread) (queue next : MPMCQueue.State Thread (FixedSizeRecord RecordSize)) :
    List Message → List (MPMCQueue.Event Thread (FixedSizeRecord RecordSize)) → Prop
  | claim {message : Message} : next.head = queue.head + 1 →
      next.pc thread = .awaitFree queue.head (makeRecord formatToN message) [] →
      EmplaceStep formatToN order thread queue next [message]
        [.claimedHead thread queue.head 1]
  | construct {ticket : UInt64} {message : Message} {out : FixedSizeRecord RecordSize} :
      next.head = queue.head → order[ticket.toNat]? = some (thread, message) →
      Emplaces formatToN order thread (next.pc thread) [] →
      EmplaceStep formatToN order thread queue next []
        [.constructed thread ticket (makeRecord formatToN message out)]
  | quiet : next.head = queue.head → Emplaces formatToN order thread (next.pc thread) [] →
      EmplaceStep formatToN order thread queue next [] []
  | returns : next.head = queue.head → next.pc thread = .idle →
      EmplaceStep formatToN order thread queue next [] [.returned thread .unit]

theorem emplaceStep_of_advance {pending : List Message}
    (emplaces : Emplaces formatToN order thread (queue.pc thread) pending)
    (step : MPMCQueue.advance QCap queue thread (queue.pc thread) = some (next, queued)) :
    EmplaceStep formatToN order thread queue next pending queued ∧ next.tail = queue.tail := by
  generalize pc : queue.pc thread = here at emplaces step
  cases emplaces with
  | fetch message =>
    cases step
    exact ⟨.claim rfl (MPMCQueue.State.setPc_pc_self ..), rfl⟩
  | await found =>
    rw [MPMCQueue.advance] at step
    split at step
    · cases step
      refine ⟨.quiet rfl ?_, rfl⟩
      rw [MPMCQueue.State.setPc_pc_self]
      exact .construct found
    · cases step
      refine ⟨.quiet rfl ?_, rfl⟩
      rw [pc]
      exact .await found
  | construct found =>
    cases step
    refine ⟨.construct rfl found ?_, rfl⟩
    rw [MPMCQueue.State.setPc_pc_self]
    exact .publish
  | publish =>
    cases step
    exact ⟨.returns rfl (MPMCQueue.State.setPc_pc_self ..), rfl⟩

/-- What a step of a thread that polls may do: read the record of the next ticket, or go on, or
return. -/
inductive ConsumeStep (thread : Thread) (read : Nat)
    (next : MPMCQueue.State Thread (FixedSizeRecord RecordSize)) :
    List (MPMCQueue.Event Thread (FixedSizeRecord RecordSize)) → Prop
  | read {ticket : UInt64} {record : FixedSizeRecord RecordSize} : ticket.toNat = read →
      Consumes next.tail (read + 1) (next.pc thread) →
      ConsumeStep thread read next [.read thread ticket record]
  | quiet {queued : List (MPMCQueue.Event Thread (FixedSizeRecord RecordSize))} :
      Consumes next.tail read (next.pc thread) → (∀ event ∈ queued, event.uses = none) →
      MPMCQueue.claimants queued = [] → MPMCQueue.returned queued = none →
      ConsumeStep thread read next queued
  | returns {count : Nat} : next.pc thread = .idle → next.tail.toNat = read →
      ConsumeStep thread read next [.returned thread (.count count)]

theorem consumeStep_of_advance {read : Nat}
    (consumes : Consumes queue.tail read (queue.pc thread))
    (small : queue.tail.toNat + (MPMCQueue.claims .tail queued).length < 2 ^ 63)
    (step : MPMCQueue.advance QCap queue thread (queue.pc thread) = some (next, queued)) :
    ConsumeStep thread read next queued ∧ next.head = queue.head := by
  have silent {queued : List (MPMCQueue.Event Thread (FixedSizeRecord RecordSize))}
      (consumes : Consumes next.tail read (next.pc thread)) (none : queued = []) :
      ConsumeStep thread read next queued := by
    subst none
    exact .quiet consumes (List.forall_mem_nil _) rfl rfl
  generalize pc : queue.pc thread = here at consumes step
  cases consumes with
  | load same =>
    cases step
    refine ⟨silent ?_ rfl, rfl⟩
    rw [MPMCQueue.State.setPc_pc_self]
    exact .test same
  | test same =>
    rw [MPMCQueue.advance] at step
    split at step
    · cases step
      refine ⟨silent ?_ rfl, rfl⟩
      rw [MPMCQueue.State.setPc_pc_self]
      exact .cas same
    · cases step
      refine ⟨silent ?_ rfl, rfl⟩
      rw [MPMCQueue.State.setPc_pc_self]
      exact .reload same
  | cas same =>
    rw [MPMCQueue.advance, if_pos rfl] at step
    cases step
    have one : queue.tail.toNat + 1 < 2 ^ 63 := small
    refine ⟨.quiet ?_ (List.forall_mem_singleton.mpr rfl) rfl rfl, rfl⟩
    rw [MPMCQueue.State.setPc_pc_self]
    refine .read same ?_
    rw [MPMCQueue.State.setPc_tail, MPMCQueue.toNat_add_one one, same]
  | reload same =>
    rw [MPMCQueue.advance, if_pos rfl] at step
    cases step
    exact ⟨.returns (MPMCQueue.State.setPc_pc_self ..) same, rfl⟩
  | read here same =>
    cases step
    refine ⟨.read here ?_, rfl⟩
    rw [MPMCQueue.State.setPc_pc_self]
    exact .destroy (by rw [here]) same
  | destroy here same =>
    cases step
    refine ⟨.quiet ?_ (List.forall_mem_singleton.mpr rfl) rfl rfl, rfl⟩
    rw [MPMCQueue.State.setPc_pc_self]
    exact .release here same
  | @release ticket count here same =>
    cases step
    refine ⟨silent ?_ rfl, rfl⟩
    have next : ticket + 1 = queue.tail := by
      refine UInt64.toNat_inj.mp ?_
      rw [MPMCQueue.toNat_add_one (by omega)]
      omega
    rw [MPMCQueue.State.setPc_pc_self, MPMCQueue.AfterPop.next, next]
    exact .test same

end Queue

/-- The thread is in `poll`. -/
def Pc.Polls : Pc → Prop
  | .tryConsumeAll _ | .testThreshold _ | .testFlush _ => True
  | .idle | .emplaceWith => False

/-- The thread is in `try_consume_all`. -/
def Pc.Consuming : Pc → Prop
  | .tryConsumeAll _ => True
  | _ => False

/-- Where a thread stands in the logger and in its queue. -/
inductive Stands (formatToN : FormatToN Message) (order : List (Thread × Message))
    (tail : UInt64) (read : Nat) (thread : Thread) :
    Pc → MPMCQueue.Pc (FixedSizeRecord RecordSize) → List Message → Prop
  | idle : Stands formatToN order tail read thread .idle .idle []
  | emplaces {pc : MPMCQueue.Pc (FixedSizeRecord RecordSize)} {pending : List Message} :
      Emplaces formatToN order thread pc pending →
      Stands formatToN order tail read thread .emplaceWith pc pending
  | consumes {flushFile : Bool} {pc : MPMCQueue.Pc (FixedSizeRecord RecordSize)} :
      Consumes tail read pc →
      Stands formatToN order tail read thread (.tryConsumeAll flushFile) pc []
  | testThreshold {flushFile : Bool} :
      Stands formatToN order tail read thread (.testThreshold flushFile) .idle []
  | testFlush {flushFile : Bool} :
      Stands formatToN order tail read thread (.testFlush flushFile) .idle []

/-! ### Steps of the logger -/

section Steps

variable [DecidableEq Thread] [DecidableEq File]

/-- The steps of the logger, one by one. -/
inductive Steps (QCap : MPMCQueue.Capacity) (formatToN : FormatToN Message)
    (s : State Thread File RecordSize) :
    Action Thread Message → State Thread File RecordSize →
      List (Event Thread RecordSize Message) → Prop
  | dropped {thread : Thread} {level : LogLevel} {message : Message} :
      Steps QCap formatToN s (.log thread level message) s []
  | log {thread : Thread} {level : LogLevel} {message : Message} : s.pc thread = .idle →
      Steps QCap formatToN s (.log thread level message)
        ({ s with
          queue := s.queue.setPc thread (.fetchHead [makeRecord formatToN message]) }.setPc thread
          .emplaceWith)
        [.logged thread message,
          .queue (.called thread (.emplaceWith (makeRecord formatToN message)))]
  | poll {thread : Thread} {flushFile : Bool} : s.pc thread = .idle →
      Steps QCap formatToN s (.poll thread flushFile)
        ({ s with queue := s.queue.setPc thread (.loadTail .many id) }.setPc thread
          (.tryConsumeAll flushFile))
        [.queue (.called thread (.tryConsumeAll id))]
  | emplace {thread : Thread} {behind : Nat → UInt8}
      {queue : MPMCQueue.State Thread (FixedSizeRecord RecordSize)}
      {queued : List (MPMCQueue.Event Thread (FixedSizeRecord RecordSize))} :
      s.pc thread = .emplaceWith →
      MPMCQueue.advance QCap s.queue thread (s.queue.pc thread) = some (queue, queued) →
      Steps QCap formatToN s (.step thread behind)
        ({ s with queue }.setPc thread
          (if (MPMCQueue.returned queued).isSome then .idle else .emplaceWith))
        (queued.map .queue)
  | consume {thread : Thread} {behind : Nat → UInt8} {flushFile : Bool}
      {queue : MPMCQueue.State Thread (FixedSizeRecord RecordSize)}
      {queued : List (MPMCQueue.Event Thread (FixedSizeRecord RecordSize))} :
      s.pc thread = .tryConsumeAll flushFile →
      MPMCQueue.advance QCap s.queue thread (s.queue.pc thread) = some (queue, queued) →
      Steps QCap formatToN s (.step thread behind)
        ({ s with
          queue
          buf := s.buf ++ appendedBytes
            (appends behind queued : List (Event Thread RecordSize Message)) }.setPc thread
          (afterConsume flushFile (MPMCQueue.returned queued)))
        (queued.map .queue ++ appends behind queued)
  | testThreshold {thread : Thread} {behind : Nat → UInt8} {flushFile : Bool} :
      s.pc thread = .testThreshold flushFile →
      Steps QCap formatToN s (.step thread behind)
        ((if flushThreshold RecordSize ≤ s.buf.length then s.writeFile else s).setPc thread
          (.testFlush flushFile)) []
  | testFlush {thread : Thread} {behind : Nat → UInt8} {flushFile : Bool} :
      s.pc thread = .testFlush flushFile →
      Steps QCap formatToN s (.step thread behind)
        ((if flushFile then s.writeFile else s).setPc thread .idle) []

variable {QCap : MPMCQueue.Capacity} {formatToN : FormatToN Message}
  {s next : State Thread File RecordSize} {events : List (Event Thread RecordSize Message)}

theorem steps_of_system {action : Action Thread Message}
    (step : system QCap formatToN s action = some (next, events)) :
    Steps QCap formatToN s action next events := by
  cases action with
  | log thread level message =>
    simp only [system] at step
    split at step
    · rename_i passes
      simp only [queueStep, MPMCQueue.system] at step
      split at step
      · cases step
        exact .log passes.1
      · cases step
    · split at step
      · cases step
        exact .dropped
      · cases step
  | poll thread flushFile =>
    simp only [system] at step
    split at step
    · rename_i idle
      simp only [queueStep, MPMCQueue.system] at step
      split at step
      · cases step
        exact .poll idle
      · cases step
    · cases step
  | step thread behind =>
    simp only [system] at step
    cases pc : s.pc thread <;> rw [pc] at step <;> simp only at step
    case idle => cases step
    case emplaceWith =>
      obtain ⟨⟨middle, queued⟩, stepped, same⟩ := Option.map_eq_some_iff.mp step
      obtain ⟨⟨queue, queued'⟩, advanced, same'⟩ := Option.map_eq_some_iff.mp stepped
      cases same'
      cases same
      exact .emplace pc advanced
    case tryConsumeAll flushFile =>
      obtain ⟨⟨middle, queued⟩, stepped, same⟩ := Option.map_eq_some_iff.mp step
      obtain ⟨⟨queue, queued'⟩, advanced, same'⟩ := Option.map_eq_some_iff.mp stepped
      cases same'
      cases same
      exact .consume pc advanced
    case testThreshold flushFile =>
      cases step
      exact .testThreshold pc
    case testFlush flushFile =>
      cases step
      exact .testFlush pc

end Steps

/-! ### Records in order -/

section Keep

variable {formatToN : FormatToN Message} {order : List (Thread × Message)} {read : Nat}
  {thread : Thread} {trace events : List (Event Thread RecordSize Message)}

theorem Pc.Consuming.polls {pc : Pc} (consuming : pc.Consuming) : pc.Polls := by
  cases pc <;> trivial

/-- Whoever does not consume stands where it stood, whatever is read, and while other records get
their places. -/
theorem Stands.change {tail tail' : UInt64} {read' : Nat} {pc : Pc}
    {qpc : MPMCQueue.Pc (FixedSizeRecord RecordSize)} {pending : List Message}
    (stands : Stands formatToN order tail read thread pc qpc pending)
    (more : List (Thread × Message))
    (still : pc.Consuming → tail' = tail ∧ read' = read) :
    Stands formatToN (order ++ more) tail' read' thread pc qpc pending := by
  cases stands with
  | idle => exact .idle
  | emplaces emplaces => exact .emplaces (emplaces.append more)
  | consumes consumes =>
    obtain ⟨rfl, rfl⟩ := still trivial
    exact .consumes consumes
  | testThreshold => exact .testThreshold
  | testFlush => exact .testFlush

theorem claimants_append (trace events : List (Event Thread RecordSize Message)) :
    MPMCQueue.claimants (queueTrace (trace ++ events)) =
      MPMCQueue.claimants (queueTrace trace) ++ MPMCQueue.claimants (queueTrace events) := by
  rw [queueTrace_append, MPMCQueue.claimants, List.filterMap_append]
  rfl

/-- What was constructed are the records of the order. -/
def AllConstructed (formatToN : FormatToN Message)
    (trace : List (Event Thread RecordSize Message)) (order : List (Thread × Message)) : Prop :=
  ∀ thread ticket record, .constructed thread ticket record ∈ queueTrace trace →
    ∃ message out, order[ticket.toNat]? = some (thread, message) ∧
      record = makeRecord formatToN message out

theorem AllConstructed.append (old : AllConstructed formatToN trace order)
    (new : AllConstructed formatToN events order) (more : List (Thread × Message)) :
    AllConstructed formatToN (trace ++ events) (order ++ more) := by
  intro thread ticket record member
  rw [queueTrace_append] at member
  have known : ∃ message out, order[ticket.toNat]? = some (thread, message) ∧
      record = makeRecord formatToN message out :=
    (List.mem_append.mp member).elim (old thread ticket record) (new thread ticket record)
  obtain ⟨message, out, found, same⟩ := known
  refine ⟨message, out, ?_, same⟩
  rw [List.getElem?_append_left (List.getElem?_eq_some_iff.mp found).1]
  exact found

theorem allConstructed_of_none
    (none : ∀ event ∈ queueTrace events, event.uses = none) :
    AllConstructed formatToN events order := by
  intro thread ticket record member
  have silent := none _ member
  cases silent

theorem appends_of_unused {behind : Nat → UInt8}
    {queued : List (MPMCQueue.Event Thread (FixedSizeRecord RecordSize))}
    (unused : ∀ event ∈ queued, event.uses = none) :
    (appends behind queued : List (Event Thread RecordSize Message)) = [] := by
  induction queued with
  | nil => rfl
  | cons event queued inductionHypothesis =>
    obtain ⟨here, later⟩ := List.forall_mem_cons.mp unused
    cases event <;> first | exact inductionHypothesis later | cases here

end Keep

section Invariant

variable [DecidableEq Thread]

/-- Every thread stands somewhere, and its messages are in the order up to the one for which it has
no ticket yet. -/
def AllStand (formatToN : FormatToN Message) (s : State Thread File RecordSize)
    (trace : List (Event Thread RecordSize Message)) (order : List (Thread × Message))
    (read : Nat) : Prop :=
  ∀ thread, ∃ pending, Stands formatToN order s.queue.tail read thread (s.pc thread)
      (s.queue.pc thread) pending ∧
    loggedBy thread trace = messagesOf thread order ++ pending

/-- The records in the order of their tickets, how many of them have been read, and what has been
flushed at a time. -/
structure Recorded [DecidableEq File] (formatToN : FormatToN Message)
    (formatted : Message → List UInt8)
    (s : State Thread File RecordSize) (trace : List (Event Thread RecordSize Message))
    (order : List (Thread × Message)) (read : Nat) (batches : List (List UInt8)) : Prop where
  head : s.queue.head.toNat = order.length
  le : read ≤ order.length
  claimed : MPMCQueue.claimants (queueTrace trace) =
    order.mapIdx fun ticket record => (record.1, ticket)
  stands : AllStand formatToN s trace order read
  constructed : AllConstructed formatToN trace order
  alone : ∀ thread other, (s.pc thread).Polls → (s.pc other).Polls → thread = other
  rested : (∀ thread, ¬ (s.pc thread).Consuming) → s.queue.tail.toNat = read
  text : batches.flatten ++ s.buf = texts formatted (order.take read)
  files : ∀ file, s.files file = spread (s.outputs.count file) batches

/-- Runs in which no two polls overlap. -/
def Alone (s : State Thread File RecordSize) : Action Thread Message → Prop
  | .poll _ _ => ∀ thread, ¬ (s.pc thread).Polls
  | _ => True

variable {formatToN : FormatToN Message} {formatted : Message → List UInt8}
  {s next : State Thread File RecordSize}
  {trace events : List (Event Thread RecordSize Message)} {order : List (Thread × Message)}
  {read : Nat} {batches : List (List UInt8)} {thread : Thread}

/-- A step of one thread. -/
theorem allStand_step (thread : Thread) {more : List (Thread × Message)} {read' : Nat}
    (stands : AllStand formatToN s trace order read)
    (others : ∀ other, other ≠ thread →
      next.pc other = s.pc other ∧ next.queue.pc other = s.queue.pc other)
    (still : ∀ other, other ≠ thread → (s.pc other).Consuming →
      next.queue.tail = s.queue.tail ∧ read' = read)
    (own : ∀ record ∈ more, record.1 = thread)
    (silent : ∀ other, other ≠ thread → loggedBy other events = [])
    (self : ∃ pending, Stands formatToN (order ++ more) next.queue.tail read' thread
        (next.pc thread) (next.queue.pc thread) pending ∧
      loggedBy thread (trace ++ events) = messagesOf thread (order ++ more) ++ pending) :
    AllStand formatToN next (trace ++ events) (order ++ more) read' := by
  intro other
  by_cases this : other = thread
  · subst this
    exact self
  · obtain ⟨pending, stood, logged⟩ := stands other
    obtain ⟨pc, qpc⟩ := others other this
    refine ⟨pending, ?_, ?_⟩
    · rw [pc, qpc]
      exact stood.change more (still other this)
    · have nothing : messagesOf other more = [] := by
        rw [messagesOf, List.filter_eq_nil_iff.mpr ?_, List.map_nil]
        intro record member
        simp [own record member, Ne.symm this]
      rw [loggedBy_append, silent other this, messagesOf_append, nothing, logged, List.append_nil,
        List.append_nil]

/-- No two threads poll after a step of a thread that polled before. -/
theorem alone_step (alone : ∀ thread other, (s.pc thread).Polls → (s.pc other).Polls →
      thread = other)
    (others : ∀ other, other ≠ thread → next.pc other = s.pc other)
    (self : (next.pc thread).Polls → (s.pc thread).Polls) :
    ∀ first second, (next.pc first).Polls → (next.pc second).Polls → first = second := by
  have before (other : Thread) (polls : (next.pc other).Polls) : (s.pc other).Polls := by
    by_cases this : other = thread
    · subst this
      exact self polls
    · rw [others other this] at polls
      exact polls
  exact fun first second polls polls' => alone first second (before first polls)
    (before second polls')

section Record

variable [DecidableEq File]

/-- Where a thread in `try_consume_all` stands in the queue. -/
theorem Recorded.consumes (recorded : Recorded formatToN formatted s trace order read batches)
    {flushFile : Bool} (pc : s.pc thread = .tryConsumeAll flushFile) :
    Consumes s.queue.tail read (s.queue.pc thread) := by
  obtain ⟨pending, stood, _⟩ := recorded.stands thread
  rw [pc] at stood
  generalize s.queue.pc thread = here at stood ⊢
  cases stood with
  | consumes consumes => exact consumes

/-- A thread that is not in the logger is not in the queue. -/
theorem Recorded.outside (recorded : Recorded formatToN formatted s trace order read batches)
    (idle : s.pc thread = .idle) : s.queue.pc thread = .idle := by
  obtain ⟨pending, stood, _⟩ := recorded.stands thread
  rw [idle] at stood
  generalize s.queue.pc thread = here at stood ⊢
  cases stood
  rfl

theorem Recorded.rested_step (recorded : Recorded formatToN formatted s trace order read batches)
    (others : ∀ other, other ≠ thread → next.pc other = s.pc other)
    (self : ¬ (s.pc thread).Consuming) (tail : next.queue.tail = s.queue.tail) :
    (∀ other, ¬ (next.pc other).Consuming) → next.queue.tail.toNat = read := by
  intro none
  rw [tail]
  refine recorded.rested fun other => ?_
  by_cases this : other = thread
  · rw [this]
    exact self
  · rw [← others other this]
    exact none other

/-- A thread begins to log. -/
theorem Recorded.log (recorded : Recorded formatToN formatted s trace order read batches)
    (idle : s.pc thread = .idle) (message : Message) :
    Recorded formatToN formatted
      ({ s with
        queue := s.queue.setPc thread (.fetchHead [makeRecord formatToN message]) }.setPc thread
        .emplaceWith)
      (trace ++ [.logged thread message,
        .queue (.called thread (.emplaceWith (makeRecord formatToN message)))])
      order read batches := by
  have others (other : Thread) (different : other ≠ thread) :=
    And.intro (s.setPc_pc_other thread .emplaceWith different)
      (s.queue.setPc_pc_other thread (.fetchHead [makeRecord formatToN message]) different)
  refine ⟨recorded.head, recorded.le, ?_, ?_, ?_, ?_, ?_, recorded.text, recorded.files⟩
  · rw [claimants_append, recorded.claimed]
    exact List.append_nil _
  · rw [← List.append_nil order]
    refine allStand_step thread recorded.stands others (fun _ _ _ => ⟨rfl, rfl⟩)
      (List.forall_mem_nil _) ?_ ?_
    · intro other different
      rw [loggedBy, if_neg (Ne.symm different)]
      rfl
    · obtain ⟨pending, stood, logged⟩ := recorded.stands thread
      rw [idle] at stood
      generalize s.queue.pc thread = pc at stood
      cases stood
      refine ⟨[message], ?_, ?_⟩
      · rw [State.setPc_pc_self, State.setPc_queue, MPMCQueue.State.setPc_pc_self]
        exact .emplaces (.fetch message)
      · rw [loggedBy_append, logged, loggedBy, if_pos rfl, List.append_nil, List.append_nil]
        rfl
  · rw [← List.append_nil order]
    refine recorded.constructed.append (allConstructed_of_none fun event member => ?_) []
    cases List.mem_singleton.mp member
    rfl
  · refine alone_step recorded.alone (fun other different => (others other different).1) ?_
    rw [State.setPc_pc_self]
    exact fun polls => absurd polls id
  · refine recorded.rested_step (fun other different => (others other different).1) ?_ rfl
    rw [idle]
    exact id

/-- A thread begins to poll, while nobody else does. -/
theorem Recorded.poll (recorded : Recorded formatToN formatted s trace order read batches)
    (idle : s.pc thread = .idle) (alone : ∀ other, ¬ (s.pc other).Polls) (flushFile : Bool) :
    Recorded formatToN formatted
      ({ s with queue := s.queue.setPc thread (.loadTail .many id) }.setPc thread
        (.tryConsumeAll flushFile))
      (trace ++ [.queue (.called thread (.tryConsumeAll id))]) order read batches := by
  have others (other : Thread) (different : other ≠ thread) :=
    And.intro (s.setPc_pc_other thread (.tryConsumeAll flushFile) different)
      (s.queue.setPc_pc_other thread (.loadTail .many id) different)
  have tail : s.queue.tail.toNat = read :=
    recorded.rested fun other consuming => alone other consuming.polls
  refine ⟨recorded.head, recorded.le, ?_, ?_, ?_, ?_, fun _ => tail, recorded.text, recorded.files⟩
  · rw [claimants_append, recorded.claimed]
    exact List.append_nil _
  · rw [← List.append_nil order]
    refine allStand_step thread recorded.stands others (fun _ _ _ => ⟨rfl, rfl⟩)
      (List.forall_mem_nil _) (fun _ _ => rfl) ?_
    obtain ⟨pending, stood, logged⟩ := recorded.stands thread
    rw [idle] at stood
    generalize s.queue.pc thread = pc at stood
    cases stood
    refine ⟨[], ?_, ?_⟩
    · rw [State.setPc_pc_self, State.setPc_queue, MPMCQueue.State.setPc_pc_self]
      exact .consumes (.load tail)
    · rw [loggedBy_append, logged]
      simp [loggedBy]
  · rw [← List.append_nil order]
    refine recorded.constructed.append (allConstructed_of_none fun event member => ?_) []
    cases List.mem_singleton.mp member
    rfl
  · intro first second polls polls'
    have only (other : Thread)
        (polls : ((s.setPc thread (.tryConsumeAll flushFile)).pc other).Polls) :
        other = thread := by
      by_contra different
      rw [s.setPc_pc_other _ _ different] at polls
      exact alone other polls
    rw [only first polls, only second polls']

/-- A step of a thread that logs, which gives a record its place or none. -/
theorem Recorded.emplace_step (recorded : Recorded formatToN formatted s trace order read batches)
    {QCap : MPMCQueue.Capacity} {queue : MPMCQueue.State Thread (FixedSizeRecord RecordSize)}
    {queued : List (MPMCQueue.Event Thread (FixedSizeRecord RecordSize))} {pc' : Pc}
    (pending : List Message) (more : List (Thread × Message)) (pc : s.pc thread = .emplaceWith)
    (step : MPMCQueue.advance QCap s.queue thread (s.queue.pc thread) = some (queue, queued))
    (logs : pc' = .idle ∨ pc' = .emplaceWith) (tail : queue.tail = s.queue.tail)
    (head : queue.head.toNat = (order ++ more).length) (own : ∀ record ∈ more, record.1 = thread)
    (claimed : MPMCQueue.claimants queued = more.map fun record => (record.1, order.length))
    (one : more.length ≤ 1) (constructed : AllConstructed formatToN
      (queued.map .queue : List (Event Thread RecordSize Message)) order)
    (stands : Stands formatToN (order ++ more) queue.tail read thread pc' (queue.pc thread) pending)
    (logged : loggedBy thread trace = messagesOf thread (order ++ more) ++ pending) :
    Recorded formatToN formatted ({ s with queue }.setPc thread pc')
      (trace ++ queued.map .queue) (order ++ more) read batches := by
  have others (other : Thread) (different : other ≠ thread) :=
    And.intro (s.setPc_pc_other thread pc' different) (MPMCQueue.pc_advance_other step different)
  refine ⟨head, ?_, ?_, ?_, ?_, ?_, ?_, ?_, recorded.files⟩
  · rw [List.length_append]
    exact Nat.le_add_right_of_le recorded.le
  · rw [claimants_append, recorded.claimed, queueTrace_map, claimed]
    match more, one with
    | [], _ => simp
    | [record], _ => simp
  · refine allStand_step thread recorded.stands others (fun _ _ _ => ⟨tail, rfl⟩) own
      (fun other _ => loggedBy_map_queue other queued) ⟨pending, ?_, ?_⟩
    · rw [State.setPc_pc_self]
      exact stands
    · rw [loggedBy_append, loggedBy_map_queue, List.append_nil]
      exact logged
  · exact recorded.constructed.append constructed more
  · refine alone_step recorded.alone (fun other different => (others other different).1) ?_
    rw [State.setPc_pc_self]
    rcases logs with rfl | rfl
    · exact fun polls => absurd polls id
    · exact fun polls => absurd polls id
  · refine recorded.rested_step (fun other different => (others other different).1) ?_ tail
    rw [pc]
    exact id
  · rw [List.take_append_of_le_length recorded.le]
    exact recorded.text

/-- A step of a thread that logs. -/
theorem Recorded.emplace (recorded : Recorded formatToN formatted s trace order read batches)
    {QCap : MPMCQueue.Capacity} {queue : MPMCQueue.State Thread (FixedSizeRecord RecordSize)}
    {queued : List (MPMCQueue.Event Thread (FixedSizeRecord RecordSize))}
    (pc : s.pc thread = .emplaceWith)
    (step : MPMCQueue.advance QCap s.queue thread (s.queue.pc thread) = some (queue, queued))
    (small : s.queue.head.toNat + (MPMCQueue.claims .head queued).length < 2 ^ 63) :
    ∃ order', Recorded formatToN formatted
      ({ s with queue }.setPc thread
        (if (MPMCQueue.returned queued).isSome then .idle else .emplaceWith))
      (trace ++ queued.map .queue) order' read batches := by
  obtain ⟨pending, stood, logged⟩ := recorded.stands thread
  rw [pc] at stood
  have emplaces : Emplaces formatToN order thread (s.queue.pc thread) pending := by
    generalize s.queue.pc thread = here at stood
    cases stood with
    | emplaces emplaces => exact emplaces
  obtain ⟨happens, tail⟩ := emplaceStep_of_advance emplaces step
  have silent : AllConstructed formatToN
      ([] : List (Event Thread RecordSize Message)) order :=
    allConstructed_of_none (List.forall_mem_nil _)
  cases happens with
  | @claim message head here =>
    have place : s.queue.head.toNat = order.length := recorded.head
    refine ⟨order ++ [(thread, message)], recorded.emplace_step []
      [(thread, message)] pc step (Or.inr rfl) tail ?_ (List.forall_mem_singleton.mpr rfl) ?_
      (le_refl _) ?_ ?_ ?_⟩
    · have one : s.queue.head.toNat + 1 < 2 ^ 63 := small
      rw [head, MPMCQueue.toNat_add_one one, place, List.length_append]
      rfl
    · rw [← place]
      rfl
    · refine allConstructed_of_none fun event member => ?_
      cases List.mem_singleton.mp member
      rfl
    · rw [here]
      refine .emplaces (.await ?_)
      rw [place]
      exact List.getElem?_concat_length
    · rw [logged, messagesOf_append, List.append_nil]
      simp [messagesOf]
  | construct head found emplaces' =>
    refine ⟨order ++ [], recorded.emplace_step [] [] pc step (Or.inr rfl) tail ?_
      (List.forall_mem_nil _) rfl (Nat.zero_le _) ?_ ?_ ?_⟩
    · rw [head, recorded.head, List.append_nil]
    · intro user ticket record member
      rw [queueTrace_map] at member
      cases List.mem_singleton.mp member
      exact ⟨_, _, found, rfl⟩
    · rw [List.append_nil]
      exact .emplaces emplaces'
    · simpa using logged
  | quiet head emplaces' =>
    refine ⟨order ++ [], recorded.emplace_step [] [] pc step (Or.inr rfl) tail ?_
      (List.forall_mem_nil _) rfl (Nat.zero_le _) silent ?_ ?_⟩
    · rw [head, recorded.head, List.append_nil]
    · rw [List.append_nil]
      exact .emplaces emplaces'
    · simpa using logged
  | returns head idle =>
    refine ⟨order ++ [], recorded.emplace_step [] [] pc step (Or.inl rfl) tail ?_
      (List.forall_mem_nil _) rfl (Nat.zero_le _) ?_ ?_ ?_⟩
    · rw [head, recorded.head, List.append_nil]
    · refine allConstructed_of_none fun event member => ?_
      cases List.mem_singleton.mp member
      rfl
    · rw [idle]
      exact .idle
    · simpa using logged

/-- A step of a thread that polls. -/
theorem Recorded.consume_step
    (recorded : Recorded formatToN formatted s trace order read batches)
    {QCap : MPMCQueue.Capacity} {queue : MPMCQueue.State Thread (FixedSizeRecord RecordSize)}
    {queued : List (MPMCQueue.Event Thread (FixedSizeRecord RecordSize))} {flushFile : Bool}
    {read' : Nat} (pc' : Pc) (bytes : List UInt8) (behind : Nat → UInt8)
    (pc : s.pc thread = .tryConsumeAll flushFile)
    (step : MPMCQueue.advance QCap s.queue thread (s.queue.pc thread) = some (queue, queued))
    (head : queue.head = s.queue.head) (claimed : MPMCQueue.claimants queued = [])
    (constructed : ∀ event ∈ queued, event.uses = none ∨ ∃ ticket record,
      event = .read thread ticket record)
    (stands : Stands formatToN order queue.tail read' thread pc' (queue.pc thread) [])
    (rested : ¬ pc'.Consuming → queue.tail.toNat = read') (le : read' ≤ order.length)
    (text' : batches.flatten ++ (s.buf ++ bytes) = texts formatted (order.take read')) :
    Recorded formatToN formatted ({ s with queue, buf := s.buf ++ bytes }.setPc thread pc')
      (trace ++ (queued.map .queue ++ appends behind queued)) order read' batches := by
  have others (other : Thread) (different : other ≠ thread) :=
    And.intro (s.setPc_pc_other thread pc' different) (MPMCQueue.pc_advance_other step different)
  have polls : (s.pc thread).Polls := by
    rw [pc]
    trivial
  refine ⟨?_, le, ?_, ?_, ?_, ?_, ?_, text', recorded.files⟩
  · rw [State.setPc_queue, head]
    exact recorded.head
  · rw [claimants_append, recorded.claimed, queueTrace_append, queueTrace_map, queueTrace_appends,
      List.append_nil, claimed, List.append_nil]
  · rw [← List.append_nil order]
    refine allStand_step thread recorded.stands others ?_ (List.forall_mem_nil _) ?_ ?_
    · intro other different consuming
      exact absurd (recorded.alone other thread consuming.polls polls) different
    · intro other different
      rw [loggedBy_append, loggedBy_map_queue, loggedBy_appends]
      rfl
    · refine ⟨[], ?_, ?_⟩
      · rw [State.setPc_pc_self, List.append_nil]
        exact stands
      · obtain ⟨pending, stood, logged⟩ := recorded.stands thread
        rw [pc] at stood
        generalize s.queue.pc thread = here at stood
        cases stood
        rw [loggedBy_append, loggedBy_append, loggedBy_map_queue, loggedBy_appends, logged]
        simp
  · rw [← List.append_nil order]
    refine recorded.constructed.append ?_ []
    intro user ticket record member
    rw [queueTrace_append, queueTrace_map, queueTrace_appends, List.append_nil] at member
    rcases constructed _ member with unused | ⟨ticket, record, same⟩
    · cases unused
    · cases same
  · exact alone_step recorded.alone (fun other different => (others other different).1)
      fun _ => polls
  · intro none
    have here := none thread
    rw [State.setPc_pc_self] at here
    exact rested here

/-- A record that has its place has been logged. -/
theorem Recorded.logged (recorded : Recorded formatToN formatted s trace order read batches)
    {message : Message} (placed : (thread, message) ∈ order) : .logged thread message ∈ trace := by
  obtain ⟨pending, _, logged⟩ := recorded.stands thread
  refine logged_of_mem_loggedBy ?_
  rw [logged]
  refine List.mem_append_left _ (List.mem_map.mpr ⟨(thread, message), ?_, rfl⟩)
  exact List.mem_filter.mpr ⟨placed, decide_eq_true rfl⟩

/-- A step of a thread that polls. -/
theorem Recorded.consume (recorded : Recorded formatToN formatted s trace order read batches)
    {QCap : MPMCQueue.Capacity} {bytes : UInt64 → FixedSizeRecord RecordSize}
    {queue : MPMCQueue.State Thread (FixedSizeRecord RecordSize)}
    {queued : List (MPMCQueue.Event Thread (FixedSizeRecord RecordSize))} {flushFile : Bool}
    {behind : Nat → UInt8} (documented : Documented formatToN formatted)
    (fits : ∀ thread message, .logged thread message ∈ trace →
      (formatted message).length ≤ RecordSize)
    (told : Told QCap formatToN bytes s trace) (pc : s.pc thread = .tryConsumeAll flushFile)
    (step : MPMCQueue.advance QCap s.queue thread (s.queue.pc thread) = some (queue, queued))
    (few : MPMCQueue.FewTickets (queueTrace trace ++ queued))
    (small : s.queue.tail.toNat + (MPMCQueue.claims .tail queued).length < 2 ^ 63) :
    ∃ read', Recorded formatToN formatted
      ({ s with
        queue
        buf := s.buf ++ appendedBytes
          (appends behind queued : List (Event Thread RecordSize Message)) }.setPc thread
        (afterConsume flushFile (MPMCQueue.returned queued)))
      (trace ++ (queued.map .queue ++ appends behind queued)) order read' batches := by
  have consumes := recorded.consumes pc
  obtain ⟨happens, head⟩ := consumeStep_of_advance consumes small step
  cases happens with
  | @read ticket record here consumes' =>
    -- the record is the one that was constructed for this ticket
    have onQueue : MPMCQueue.system QCap id s.queue (.step thread) =
        some (queue, [.read thread ticket record]) := step
    have run := told.run.next onQueue
    obtain ⟨_, producer, _, built⟩ := MPMCQueue.delivered_of_reaches run few rfl
    obtain ⟨message, out, found, rfl⟩ := recorded.constructed producer ticket record built
    rw [here] at found
    obtain ⟨less, same⟩ := List.getElem?_eq_some_iff.mp found
    have whole : (makeRecord formatToN message out : FixedSizeRecord RecordSize).copied behind =
        formatted message := by
      have short := fits producer message
        (recorded.logged (same ▸ List.getElem_mem less))
      rw [((faithful_makeRecord documented message out behind).mpr short).1,
        List.take_of_length_le short]
    refine ⟨read + 1, recorded.consume_step _ _ _ pc step head rfl ?_ (.consumes consumes')
      (fun none => absurd trivial none) less ?_⟩
    · exact List.forall_mem_singleton.mpr (Or.inr ⟨_, _, rfl⟩)
    · rw [List.take_add_one, found, ← List.append_assoc, recorded.text]
      simp [texts, appends, appendedBytes, whole]
  | quiet consumes' unused claimed returned =>
    rw [appends_of_unused unused, returned]
    refine ⟨read, ?_⟩
    have stepped := recorded.consume_step (.tryConsumeAll flushFile) [] behind pc step head
      claimed (fun event member => Or.inl (unused event member)) (.consumes consumes')
      (fun none => absurd trivial none) recorded.le (by rw [List.append_nil]; exact recorded.text)
    rw [appends_of_unused unused] at stepped
    exact stepped
  | @returns count idle tail =>
    refine ⟨read, recorded.consume_step _ _ _ pc step head rfl ?_ ?_ (fun _ => tail) recorded.le ?_⟩
    · exact List.forall_mem_singleton.mpr (Or.inl rfl)
    · rw [idle]
      cases count with
      | zero => exact .idle
      | succ count => exact .testThreshold
    · rw [← recorded.text]
      simp [appends, appendedBytes]

/-- `writeFile` makes a batch of the buffer. -/
theorem Recorded.writeFile (recorded : Recorded formatToN formatted s trace order read batches) :
    Recorded formatToN formatted s.writeFile trace order read (batches ++ [s.buf]) := by
  have text : (batches ++ [s.buf]).flatten ++ [] = texts formatted (order.take read) := by
    rw [← recorded.text]
    simp
  have files (file : File) := writeFile_files s file
  have queue := writeFile_queue s
  refine ⟨queue ▸ recorded.head, recorded.le, recorded.claimed, ?_, recorded.constructed, ?_, ?_,
    ?_, fun file => ?_⟩
  · unfold AllStand
    rw [queue, writeFile_pc]
    exact recorded.stands
  · rw [writeFile_pc]
    exact recorded.alone
  · rw [queue, writeFile_pc]
    exact recorded.rested
  · rw [writeFile_buf]
    exact text
  · rw [files, writeFile_outputs, recorded.files, spread_append]

/-- A step behind `try_consume_all`. -/
theorem Recorded.onward (recorded : Recorded formatToN formatted s trace order read batches)
    {pc' : Pc} (polls : (s.pc thread).Polls) (before : ¬ (s.pc thread).Consuming)
    (after : (∃ flushFile, pc' = .testFlush flushFile) ∨ pc' = .idle) :
    Recorded formatToN formatted (s.setPc thread pc') trace order read batches := by
  have others (other : Thread) (different : other ≠ thread) :
      (s.setPc thread pc').pc other = s.pc other ∧
        (s.setPc thread pc').queue.pc other = s.queue.pc other :=
    ⟨s.setPc_pc_other thread pc' different, rfl⟩
  refine ⟨recorded.head, recorded.le, recorded.claimed, ?_, recorded.constructed, ?_, ?_,
    recorded.text, recorded.files⟩
  · rw [← List.append_nil order, ← List.append_nil trace]
    refine allStand_step thread recorded.stands others (fun _ _ _ => ⟨rfl, rfl⟩)
      (List.forall_mem_nil _) (fun _ _ => rfl) ?_
    obtain ⟨pending, stood, logged⟩ := recorded.stands thread
    have outside : s.queue.pc thread = .idle ∧ pending = [] := by
      generalize s.queue.pc thread = here at stood
      generalize s.pc thread = place at stood polls before
      cases stood with
      | idle => exact absurd polls id
      | emplaces emplaces => exact absurd polls id
      | consumes consumes => exact absurd trivial before
      | testThreshold => exact ⟨rfl, rfl⟩
      | testFlush => exact ⟨rfl, rfl⟩
    obtain ⟨idle, rfl⟩ := outside
    refine ⟨[], ?_, by simpa using logged⟩
    rw [State.setPc_pc_self, State.setPc_queue, idle]
    rcases after with ⟨flushFile, rfl⟩ | rfl
    · exact .testFlush
    · exact .idle
  · exact alone_step recorded.alone (fun other different => (others other different).1)
      fun _ => polls
  · exact recorded.rested_step (fun other different => (others other different).1) before rfl

/-- Every step of a run without overlapping polls keeps the records in order. -/
theorem recorded_step (recorded : Recorded formatToN formatted s trace order read batches)
    {QCap : MPMCQueue.Capacity} {bytes : UInt64 → FixedSizeRecord RecordSize}
    {action : Action Thread Message} (documented : Documented formatToN formatted)
    (fits : ∀ thread message, .logged thread message ∈ trace →
      (formatted message).length ≤ RecordSize)
    (told : Told QCap formatToN bytes s trace)
    (few : MPMCQueue.FewTickets (queueTrace (trace ++ events))) (alone : Alone s action)
    (step : system QCap formatToN s action = some (next, events)) :
    ∃ order read batches,
      Recorded formatToN formatted next (trace ++ events) order read batches := by
  have stepped := steps_of_system step
  have small {queued : List (MPMCQueue.Event Thread (FixedSizeRecord RecordSize))}
      (few : MPMCQueue.FewTickets (queueTrace trace ++ queued)) (side : MPMCQueue.Side) :
      s.queue.count side + (MPMCQueue.claims side queued).length < 2 ^ 63 := by
    have bounded := few side
    rw [MPMCQueue.claims_append, List.length_append,
      (MPMCQueue.sound_of_reaches told.run few.of_append).claimed side, List.length_range]
      at bounded
    exact bounded
  cases stepped with
  | dropped =>
    rw [List.append_nil]
    exact ⟨_, _, _, recorded⟩
  | log idle => exact ⟨_, _, _, recorded.log idle _⟩
  | poll idle => exact ⟨_, _, _, recorded.poll idle alone _⟩
  | emplace pc advanced =>
    rw [queueTrace_append, queueTrace_map] at few
    obtain ⟨order', recorded'⟩ := recorded.emplace pc advanced (small few .head)
    exact ⟨order', _, _, recorded'⟩
  | consume pc advanced =>
    rw [queueTrace_append, queueTrace_append, queueTrace_map, queueTrace_appends,
      List.append_nil] at few
    obtain ⟨read', recorded'⟩ :=
      recorded.consume documented fits told pc advanced few (small few .tail)
    exact ⟨_, read', _, recorded'⟩
  | testThreshold pc =>
    rw [List.append_nil]
    split
    · refine ⟨_, _, _, recorded.writeFile.onward ?_ ?_ (Or.inl ⟨_, rfl⟩)⟩ <;> rw [writeFile_pc, pc]
      · trivial
      · exact id
    · refine ⟨_, _, _, recorded.onward ?_ ?_ (Or.inl ⟨_, rfl⟩)⟩ <;> rw [pc]
      · trivial
      · exact id
  | testFlush pc =>
    rw [List.append_nil]
    split
    · refine ⟨_, _, _, recorded.writeFile.onward ?_ ?_ (Or.inr rfl)⟩ <;> rw [writeFile_pc, pc]
      · trivial
      · exact id
    · refine ⟨_, _, _, recorded.onward ?_ ?_ (Or.inr rfl)⟩ <;> rw [pc]
      · trivial
      · exact id

end Record

end Invariant

end Logger

end Sheep
