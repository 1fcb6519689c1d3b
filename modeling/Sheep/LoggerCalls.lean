/-
This file models a logger whose calls are executed one at a time, with polls of
the background thread in between. A completed call is one step here. As nothing
else runs during a call, the queue is the list of the records in it.
-/

import Sheep.LoggerLife

namespace Sheep

namespace Logger

namespace Serial

/-! ### States and events -/

/-- Where the background thread stands in its loop while no call is executed. It is `exited` also
when there is none. -/
inductive Background
  | testRunning
  | sleep
  | exited
deriving DecidableEq, Repr

/-- `consumed` is the number of records that have left the queue. -/
structure State (File : Type) (RecordSize : Nat) where
  queue : List (FixedSizeRecord RecordSize)
  consumed : Nat
  logLevel : LogLevel
  outputs : List File
  buf : List UInt8
  bgtRunning : Bool
  background : Background
  destroyed : Bool

/-- What a call does to the outside. An `fwrite` comes with the place of the file in `m_outputs`. -/
inductive Event (File : Type) (RecordSize : Nat)
  | logged (ticket : Nat) (record : FixedSizeRecord RecordSize)
  | attached (file : File)
  | fwrote (entry : Nat) (file : File) (bytes : List UInt8)
  | fclosed (file : File)

/-- The calls, and the background thread. A record is made in a `slot` of the queue. -/
inductive Action (File Message : Type) (RecordSize : Nat)
  | log (level : LogLevel) (message : Message) (slot : FixedSizeRecord RecordSize)
  | poll (flushFile : Bool)
  | background
  | startBackgroundThread
  | stopBackgroundThread
  | setLogLevel (level : LogLevel)
  | addLogFile (file : File)
  | setLogFile (file : File)
  | closeLogFiles
  | destroy

variable {File Message : Type} {RecordSize : Nat}

/-- What a call leaves, and what it did. -/
abbrev Outcome (File : Type) (RecordSize : Nat) :=
  State File RecordSize × List (Event File RecordSize)

def Outcome.andThen (first : Outcome File RecordSize)
    (next : State File RecordSize → Outcome File RecordSize) : Outcome File RecordSize :=
  ((next first.1).1, first.2 ++ (next first.1).2)

/-- A logger that has been constructed. -/
def constructed (logLevel : LogLevel) (stdout : File) : State File RecordSize where
  queue := []
  consumed := 0
  logLevel := logLevel
  outputs := [stdout]
  buf := []
  bgtRunning := true
  background := .testRunning
  destroyed := false

/-! ### Functions -/

def State.writeFile (s : State File RecordSize) : Outcome File RecordSize :=
  if s.buf = [] then (s, [])
  else
    ({ s with buf := [] },
      s.outputs.zipIdx.map fun output => .fwrote output.2 output.1 s.buf)

section Memory

-- what lies behind a record when the functor of `poll` copies it, by the ticket of the record
variable (behind : Nat → Nat → UInt8)

/-- The bytes that the functor copies from some records. -/
def copies (records : List (FixedSizeRecord RecordSize × Nat)) : List UInt8 :=
  records.flatMap fun record => record.1.copied (behind record.2)

/-- `try_consume_all`, with the functor of `poll`. -/
def State.tryConsumeAll (s : State File RecordSize) : State File RecordSize :=
  { s with
    queue := [],
    consumed := s.consumed + s.queue.length,
    buf := s.buf ++ copies behind (s.queue.zipIdx s.consumed) }

def State.poll (s : State File RecordSize) (flushFile : Bool) : Outcome File RecordSize :=
  -- `cnt == 0`
  if s.queue = [] then (s, [])
  else
    let after := s.tryConsumeAll behind
    Outcome.andThen
      (if flushThreshold RecordSize ≤ after.buf.length then after.writeFile else (after, []))
      fun after => if flushFile then after.writeFile else (after, [])

/-- One more round of the background thread, which is asleep. -/
def State.round (s : State File RecordSize) : Outcome File RecordSize :=
  (s.poll behind true).andThen fun after => ({ after with background := .testRunning }, [])

/-- What is left of the background thread is executed while `join` waits for it. -/
def State.join (s : State File RecordSize) : Outcome File RecordSize :=
  Outcome.andThen (if s.background = .sleep then s.round behind else (s, []))
    fun after => ({ after with background := .exited }, [])

def State.stopBackgroundThread (s : State File RecordSize) : Outcome File RecordSize :=
  if s.bgtRunning then State.join behind { s with bgtRunning := false } else (s, [])

def State.startBackgroundThread (s : State File RecordSize) : Outcome File RecordSize :=
  (s.stopBackgroundThread behind).andThen fun after =>
    ({ after with bgtRunning := true, background := .testRunning }, [])

/-- The loop of `closeLogFiles`. -/
def State.fcloseAll (s : State File RecordSize) : Outcome File RecordSize :=
  ({ s with outputs := [] }, s.outputs.map .fclosed)

def State.closeLogFiles (s : State File RecordSize) : Outcome File RecordSize :=
  if s.buf = [] ∨ s.outputs = [] then (s, [])
  else (s.poll behind true).andThen State.fcloseAll

def State.addLogFile (s : State File RecordSize) (file : File) : Outcome File RecordSize :=
  ({ s with outputs := s.outputs ++ [file] }, [.attached file])

def State.setLogFile (s : State File RecordSize) (file : File) : Outcome File RecordSize :=
  (s.closeLogFiles behind).andThen fun after =>
    ({ after with outputs := [file] }, [.attached file])

/-- `~LoggerImpl`. -/
def State.destroy (s : State File RecordSize) : Outcome File RecordSize :=
  (((s.stopBackgroundThread behind).andThen fun after => after.poll behind true).andThen
    fun after => after.closeLogFiles behind).andThen fun after =>
      ({ after with destroyed := true }, [])

/-- `log`, which completes when there is room in the queue. -/
def State.log (s : State File RecordSize) (QCap : MPMCQueue.Capacity)
    (formatToN : FormatToN Message) (level : LogLevel) (message : Message)
    (slot : FixedSizeRecord RecordSize) : Option (Outcome File RecordSize) :=
  if s.logLevel.value ≤ level.value then
    if s.queue.length < QCap.value.toNat then
      let record := makeRecord formatToN message slot
      some ({ s with queue := s.queue ++ [record] },
        [.logged (s.consumed + s.queue.length) record])
    else none
  else some (s, [])

/-- The background thread, up to its next sleep or out of it. -/
def State.runBackground (s : State File RecordSize) : Option (Outcome File RecordSize) :=
  match s.background with
  | .testRunning =>
      some ({ s with background := if s.bgtRunning then .sleep else .exited }, [])
  | .sleep => some (s.round behind)
  | .exited => none

/-- One call after another. -/
def serial (QCap : MPMCQueue.Capacity) (formatToN : FormatToN Message) :
    Transitions.System (State File RecordSize) (Action File Message RecordSize)
      (Event File RecordSize) :=
  fun s action =>
    if s.destroyed then none
    else
      match action with
      | .log level message slot => s.log QCap formatToN level message slot
      | .poll flushFile => some (s.poll behind flushFile)
      | .background => s.runBackground behind
      | .startBackgroundThread => some (s.startBackgroundThread behind)
      | .stopBackgroundThread => some (s.stopBackgroundThread behind)
      | .setLogLevel level => some ({ s with logLevel := level }, [])
      | .addLogFile file => some (s.addLogFile file)
      | .setLogFile file => some (s.setLogFile behind file)
      | .closeLogFiles => some (s.closeLogFiles behind)
      | .destroy => some (s.destroy behind)

end Memory

end Serial

end Logger

end Sheep
