/-
This file models the logger: the records, `MakeRecordImpl`, and `LoggerImpl` with
its calls of `log` and `poll`. The queue of records is the `MPMCQueue` of this
development, and each of its atomic steps is a step here. A record is filled where
it lies in the storage of a slot, and is read from there.

`fmt::format_to_n` is not part of the repository. It is a parameter here.
-/

import Sheep.Queue

namespace Sheep

namespace Logger

/-! ### Records -/

/-- `FixedSizeRecord`: an array of characters and the size of the message in it. -/
structure FixedSizeRecord (RecordSize : Nat) where
  data : Vector UInt8 RecordSize
  size : UInt64

/-- `fmt::format_to_n`: it writes at most `n` characters of a formatted message into an array, and
returns the size of the message. A message is the format with its arguments and the time. -/
abbrev FormatToN (Message : Type) :=
  {length : Nat} → Vector UInt8 length → Nat → Message → Vector UInt8 length × UInt64

variable {RecordSize : Nat} {Message : Type}

/-- `MakeRecordImpl::operator()`. -/
def makeRecord (formatToN : FormatToN Message) (message : Message)
    (out : FixedSizeRecord RecordSize) : FixedSizeRecord RecordSize :=
  let res := formatToN out.data RecordSize message
  { data := res.1, size := res.2 }

/-- The bytes of a record in memory, with what lies behind its array. -/
def FixedSizeRecord.byte (record : FixedSizeRecord RecordSize) (behind : Nat → UInt8) (i : Nat) :
    UInt8 :=
  if inside : i < RecordSize then record.data[i] else behind i

/-- What the functor of `poll` appends to the buffer:
`copy_n(begin(p->data), p->size, back_inserter(m_buf))`. -/
def FixedSizeRecord.copied (record : FixedSizeRecord RecordSize) (behind : Nat → UInt8) :
    List UInt8 :=
  (List.range record.size.toNat).map (record.byte behind)

/-! ### States and events -/

inductive LogLevel
  | trace
  | debug
  | info
  | warn
  | error
deriving DecidableEq, Repr

/-- The number of a level. -/
def LogLevel.value : LogLevel → Nat
  | .trace => 0
  | .debug => 1
  | .info => 2
  | .warn => 3
  | .error => 4

/-- Where a thread stands in `log` or `poll`. -/
inductive Pc
  | idle
  | emplaceWith
  | tryConsumeAll (flushFile : Bool)
  | testThreshold (flushFile : Bool)
  | testFlush (flushFile : Bool)
deriving DecidableEq, Repr

structure State (Thread File : Type) (RecordSize : Nat) where
  queue : MPMCQueue.State Thread (FixedSizeRecord RecordSize)
  logLevel : LogLevel
  outputs : List File
  buf : List UInt8
  files : File → List UInt8
  pc : Thread → Pc

inductive Event (Thread : Type) (RecordSize : Nat) (Message : Type)
  | logged (thread : Thread) (message : Message)
  | queue (event : MPMCQueue.Event Thread (FixedSizeRecord RecordSize))
  | appended (ticket : UInt64) (bytes : List UInt8)

/-- What may happen next. A step comes with what lies behind a record in memory. -/
inductive Action (Thread Message : Type)
  | log (thread : Thread) (level : LogLevel) (message : Message)
  | poll (thread : Thread) (flushFile : Bool)
  | step (thread : Thread) (behind : Nat → UInt8)

section Step

variable {Thread File : Type}

/-- A logger that has just been made. The level is not initialised. -/
def start (bytes : UInt64 → FixedSizeRecord RecordSize) (logLevel : LogLevel) (stdout : File) :
    State Thread File RecordSize where
  queue := MPMCQueue.start bytes
  logLevel := logLevel
  outputs := [stdout]
  buf := []
  files _ := []
  pc _ := .idle

/-- `Desired_flush_threshold`. -/
def flushThreshold (RecordSize : Nat) : Nat := RecordSize * 8192 * 8 / 10

/-- What a step of the queue appends to the buffer: the records that are read. -/
def appends (behind : Nat → UInt8) :
    List (MPMCQueue.Event Thread (FixedSizeRecord RecordSize)) →
      List (Event Thread RecordSize Message)
  | [] => []
  | .read _ ticket record :: events =>
      .appended ticket (record.copied behind) :: appends behind events
  | _ :: events => appends behind events

def appendedBytes : List (Event Thread RecordSize Message) → List UInt8
  | [] => []
  | .appended _ bytes :: events => bytes ++ appendedBytes events
  | _ :: events => appendedBytes events

/-- After a step of `try_consume_all`. -/
def afterConsume (flushFile : Bool) : Option MPMCQueue.Returned → Pc
  | none => .tryConsumeAll flushFile
  | some (.count (_ + 1)) => .testThreshold flushFile
  | some _ => .idle

/-- `writeFile`: the buffer goes to the end of every output. -/
def State.writeFile [DecidableEq File] (s : State Thread File RecordSize) :
    State Thread File RecordSize :=
  if s.buf = [] then s
  else
    { s with
      files := s.outputs.foldl
        (fun files file => Function.update files file (files file ++ s.buf)) s.files,
      buf := [] }

variable [DecidableEq Thread]

def State.setPc (s : State Thread File RecordSize) (thread : Thread) (pc : Pc) :
    State Thread File RecordSize :=
  { s with pc := Function.update s.pc thread pc }

variable [DecidableEq File] (QCap : MPMCQueue.Capacity) (formatToN : FormatToN Message)

/-- A step of the queue. -/
def queueStep (s : State Thread File RecordSize)
    (action : MPMCQueue.Action Thread (FixedSizeRecord RecordSize)) :
    Option (State Thread File RecordSize ×
      List (MPMCQueue.Event Thread (FixedSizeRecord RecordSize))) :=
  (MPMCQueue.system QCap id s.queue action).map
    fun stepped => ({ s with queue := stepped.1 }, stepped.2)

/-- The logger under any number of threads that log or poll. -/
def system : Transitions.System (State Thread File RecordSize) (Action Thread Message)
    (Event Thread RecordSize Message)
  | s, .log thread level message =>
      if s.pc thread = .idle ∧ s.logLevel.value ≤ level.value then
        (queueStep QCap s (.call thread (.emplaceWith (makeRecord formatToN message)))).map
          fun stepped => (stepped.1.setPc thread .emplaceWith,
            .logged thread message :: stepped.2.map .queue)
      else if s.pc thread = .idle then some (s, [])
      else none
  | s, .poll thread flushFile =>
      if s.pc thread = .idle then
        (queueStep QCap s (.call thread (.tryConsumeAll id))).map
          fun stepped => (stepped.1.setPc thread (.tryConsumeAll flushFile),
            stepped.2.map .queue)
      else none
  | s, .step thread behind =>
      match s.pc thread with
      | .idle => none
      | .emplaceWith =>
          (queueStep QCap s (.step thread)).map fun stepped =>
            (stepped.1.setPc thread
              (if (MPMCQueue.returned stepped.2).isSome then .idle else .emplaceWith),
              stepped.2.map .queue)
      | .tryConsumeAll flushFile =>
          (queueStep QCap s (.step thread)).map fun stepped =>
            let appended := appends behind stepped.2
            ({ stepped.1 with buf := s.buf ++ appendedBytes appended }.setPc thread
              (afterConsume flushFile (MPMCQueue.returned stepped.2)),
              stepped.2.map .queue ++ appended)
      | .testThreshold flushFile =>
          let after := if flushThreshold RecordSize ≤ s.buf.length then s.writeFile else s
          some (after.setPc thread (.testFlush flushFile), [])
      | .testFlush flushFile =>
          let after := if flushFile then s.writeFile else s
          some (after.setPc thread .idle, [])

end Step

end Logger

end Sheep
