/-
This file models any number of `LoggerImpl` objects of one instantiation that are alive
together. A call of `log` first takes a ticket of the queue and writes its record at any
time later, as other calls do in between; a `poll` is one step.

The functor with which `poll` copies records is a static variable of the function. All
objects share it, and it is initialised in the first call of `poll` of any of them, with
the `this` of that call. The functor of `log` is static as well, but has no state.
-/

import Sheep.LoggerCalls

namespace Sheep

namespace Loggers

open Logger (FixedSizeRecord FormatToN LogLevel makeRecord flushThreshold)
open Logger.Serial (copies)

/-! ### States and events -/

/-- A place in a queue: it has been claimed by a call of `log`, or its record has been written. -/
inductive Place (Message : Type) (RecordSize : Nat)
  | claimed (message : Message)
  | written (record : FixedSizeRecord RecordSize)

/-- A `LoggerImpl`. The queue has its places from the tail on; `consumed` is the tail. -/
structure LoggerImpl (File Message : Type) (RecordSize : Nat) where
  queue : List (Place Message RecordSize)
  consumed : Nat
  logLevel : LogLevel
  outputs : List File
  buf : List UInt8

/-- The objects, and the static `consume_functor`: the object it has been made for, if any. -/
structure State (Index File Message : Type) (RecordSize : Nat) where
  loggers : Index → LoggerImpl File Message RecordSize
  consumeFunctor : Option Index

inductive Event (Index File : Type) (RecordSize : Nat)
  | logged (logger : Index) (ticket : Nat) (record : FixedSizeRecord RecordSize)
  | fwrote (logger : Index) (entry : Nat) (file : File) (bytes : List UInt8)

/-- A call of `log` begins, or writes the record for the ticket at a place into its `slot`, or
`poll` is called. -/
inductive Action (Index Message : Type) (RecordSize : Nat)
  | log (logger : Index) (level : LogLevel) (message : Message)
  | publish (logger : Index) (place : Nat) (slot : FixedSizeRecord RecordSize)
  | poll (logger : Index) (flushFile : Bool)

variable {Index File Message : Type} {RecordSize : Nat}

/-- Loggers that have just been made, with what is attached to them. -/
def start (logLevel : Index → LogLevel) (outputs : Index → List File) :
    State Index File Message RecordSize where
  loggers logger := ⟨[], 0, logLevel logger, outputs logger, []⟩
  consumeFunctor := none

/-! ### Steps -/

/-- The records that `try_consume_all` comes to. -/
def published : List (Place Message RecordSize) → List (FixedSizeRecord RecordSize)
  | .written record :: rest => record :: published rest
  | _ => []

namespace LoggerImpl

/-- The first records leave the queue. -/
def consume (logger : LoggerImpl File Message RecordSize) (count : Nat) :
    LoggerImpl File Message RecordSize :=
  { logger with queue := logger.queue.drop count, consumed := logger.consumed + count }

/-- `std::back_inserter(m_buf)`. -/
def append (logger : LoggerImpl File Message RecordSize) (bytes : List UInt8) :
    LoggerImpl File Message RecordSize :=
  { logger with buf := logger.buf ++ bytes }

def clear (logger : LoggerImpl File Message RecordSize) : LoggerImpl File Message RecordSize :=
  { logger with buf := [] }

def setQueue (logger : LoggerImpl File Message RecordSize)
    (queue : List (Place Message RecordSize)) : LoggerImpl File Message RecordSize :=
  { logger with queue }

end LoggerImpl

variable [DecidableEq Index]

namespace State

variable (s : State Index File Message RecordSize)

def modify (logger : Index)
    (change : LoggerImpl File Message RecordSize → LoggerImpl File Message RecordSize) :
    State Index File Message RecordSize :=
  { s with loggers := Function.update s.loggers logger (change (s.loggers logger)) }

def writeFile (logger : Index) :
    State Index File Message RecordSize × List (Event Index File RecordSize) :=
  if (s.loggers logger).buf = [] then (s, [])
  else
    (s.modify logger LoggerImpl.clear,
      (s.loggers logger).outputs.zipIdx.map fun output =>
        .fwrote logger output.2 output.1 (s.loggers logger).buf)

/-- A ticket of the queue, for a message that passes the level check. -/
def log (logger : Index) (level : LogLevel) (message : Message) :
    State Index File Message RecordSize :=
  if (s.loggers logger).logLevel.value ≤ level.value then
    s.modify logger fun object => object.setQueue (object.queue ++ [.claimed message])
  else s

/-- The record is written when its slot is free. -/
def publish (QCap : MPMCQueue.Capacity) (formatToN : FormatToN Message) (logger : Index)
    (place : Nat) (slot : FixedSizeRecord RecordSize) :
    Option (State Index File Message RecordSize × List (Event Index File RecordSize)) :=
  match (s.loggers logger).queue[place]? with
  | some (.claimed message) =>
      if place < QCap.value.toNat then
        let record := makeRecord formatToN message slot
        some (s.modify logger fun object =>
            object.setQueue (object.queue.set place (.written record)),
          [.logged logger ((s.loggers logger).consumed + place) record])
      else none
  | _ => none

/-- The object that the functor of `poll` copies to. -/
def functorThis (logger : Index) : Index := s.consumeFunctor.getD logger

-- what lies behind a record when the functor copies it, by its logger and its ticket
variable (behind : Index → Nat → Nat → UInt8)

/-- What the functor copies in a poll. -/
def copied (logger : Index) : List UInt8 :=
  copies (behind logger)
    ((published (s.loggers logger).queue).zipIdx (s.loggers logger).consumed)

/-- `try_consume_all`, with the functor. -/
def tryConsumeAll (logger : Index) : State Index File Message RecordSize :=
  (s.modify logger fun object => object.consume (published object.queue).length).modify
    (s.functorThis logger) fun object => object.append (s.copied behind logger)

def poll (logger : Index) (flushFile : Bool) :
    State Index File Message RecordSize × List (Event Index File RecordSize) :=
  let initialised := { s with consumeFunctor := some (s.functorThis logger) }
  -- `cnt == 0`
  if published (s.loggers logger).queue = [] then (initialised, [])
  else
    let after := initialised.tryConsumeAll behind logger
    let first := if flushThreshold RecordSize ≤ (after.loggers logger).buf.length then
      after.writeFile logger else (after, [])
    let second := if flushFile then first.1.writeFile logger else (first.1, [])
    (second.1, first.2 ++ second.2)

end State

/-- The loggers under any interleaving of calls. -/
def system (behind : Index → Nat → Nat → UInt8) (QCap : MPMCQueue.Capacity)
    (formatToN : FormatToN Message) :
    Transitions.System (State Index File Message RecordSize) (Action Index Message RecordSize)
      (Event Index File RecordSize)
  | s, .log logger level message => some (s.log logger level message, [])
  | s, .publish logger place slot => s.publish QCap formatToN logger place slot
  | s, .poll logger flushFile => some (s.poll behind logger flushFile)

end Loggers

end Sheep
