/-
This file models a logger from its construction to its destruction: threads that
log, the background thread that polls as long as it is to run, and the owner of
the logger, whose destructor stops the background thread, polls once more and
closes the files. What these threads do inside `log` and `poll` are the steps of
`Logger.system`.
-/

import Sheep.Logger

namespace Sheep

namespace Logger

/-- The threads of a logger. -/
inductive Party (Thread : Type)
  | caller (thread : Thread)
  | background
  | owner
deriving DecidableEq, Repr

/-- Where the background thread stands in its loop. -/
inductive Background
  | testRunning
  | sleep
  | poll
  | exited
deriving DecidableEq, Repr

/-- Where the owner stands in `~LoggerImpl`: in `stopBackgroundThread`, in its own `poll`, or in
`closeLogFiles`, which may poll once more. -/
inductive Owner
  | alive
  | testRunning
  | clearRunning
  | join
  | poll
  | polling
  | closeLogFiles
  | closePoll
  | closePolling
  | close
  | gone
deriving DecidableEq, Repr

/-- A logger with its threads. `bgtRunning` is `bgt_running`. -/
structure Life (Thread File : Type) (RecordSize : Nat) where
  logger : State (Party Thread) File RecordSize
  bgtRunning : Bool
  background : Background
  owner : Owner

inductive LifeAction (Thread Message : Type)
  | log (thread : Thread) (level : LogLevel) (message : Message)
  | step (thread : Thread) (behind : Nat → UInt8)
  | background (behind : Nat → UInt8)
  | destroy
  | owner (behind : Nat → UInt8)

variable {Thread File Message : Type} {RecordSize : Nat}

/-- A logger that has been constructed, with the files that are attached to it. -/
def born (bytes : UInt64 → FixedSizeRecord RecordSize) (logLevel : LogLevel)
    (outputs : List File) : Life Thread File RecordSize where
  logger := {
    queue := MPMCQueue.start bytes
    logLevel
    outputs
    buf := []
    files := fun _ => []
    pc := fun _ => .idle }
  bgtRunning := true
  background := .testRunning
  owner := .alive

section Step

variable [DecidableEq Thread] [DecidableEq File] (QCap : MPMCQueue.Capacity)
  (formatToN : FormatToN Message)

/-- A step of some thread inside the logger. -/
def Life.enter (s : Life Thread File RecordSize) (action : Action (Party Thread) Message) :
    Option (Life Thread File RecordSize × List (Event (Party Thread) RecordSize Message)) :=
  (system QCap formatToN s.logger action).map
    fun stepped => ({ s with logger := stepped.1 }, stepped.2)

/-- The background thread. -/
def Life.runBackground (s : Life Thread File RecordSize) (behind : Nat → UInt8) :
    Option (Life Thread File RecordSize × List (Event (Party Thread) RecordSize Message)) :=
  match s.background with
  | .testRunning =>
      some ({ s with background := if s.bgtRunning then .sleep else .exited }, [])
  | .sleep =>
      (s.enter QCap formatToN (.poll .background true)).map
        fun stepped => ({ stepped.1 with background := .poll }, stepped.2)
  | .poll =>
      (s.enter QCap formatToN (.step .background behind)).map fun stepped =>
        ({ stepped.1 with
          background :=
            if stepped.1.logger.pc .background = .idle then .testRunning else .poll }, stepped.2)
  | .exited => none

/-- The destructor. -/
def Life.runOwner (s : Life Thread File RecordSize) (behind : Nat → UInt8) :
    Option (Life Thread File RecordSize × List (Event (Party Thread) RecordSize Message)) :=
  let call (next : Owner) :=
    (s.enter QCap formatToN (.poll .owner true)).map
      fun stepped => ({ stepped.1 with owner := next }, stepped.2)
  let polls (next : Owner) :=
    (s.enter QCap formatToN (.step .owner behind)).map fun stepped =>
      ({ stepped.1 with
        owner := if stepped.1.logger.pc .owner = .idle then next else s.owner }, stepped.2)
  match s.owner with
  | .alive => none
  | .testRunning => some ({ s with owner := if s.bgtRunning then .clearRunning else .poll }, [])
  | .clearRunning => some ({ s with bgtRunning := false, owner := .join }, [])
  | .join => if s.background = .exited then some ({ s with owner := .poll }, []) else none
  | .poll => call .polling
  | .polling => polls .closeLogFiles
  | .closeLogFiles =>
      if s.logger.buf = [] ∨ s.logger.outputs = [] then some ({ s with owner := .gone }, [])
      else some ({ s with owner := .closePoll }, [])
  | .closePoll => call .closePolling
  | .closePolling => polls .close
  -- every file is closed
  | .close => some ({ s with logger := { s.logger with outputs := [] }, owner := .gone }, [])
  | .gone => none

/-- The logger with any number of threads that log. -/
def life : Transitions.System (Life Thread File RecordSize) (LifeAction Thread Message)
    (Event (Party Thread) RecordSize Message)
  | s, .log thread level message => s.enter QCap formatToN (.log (.caller thread) level message)
  | s, .step thread behind => s.enter QCap formatToN (.step (.caller thread) behind)
  | s, .background behind => s.runBackground QCap formatToN behind
  | s, .destroy => if s.owner = .alive then some ({ s with owner := .testRunning }, []) else none
  | s, .owner behind => s.runOwner QCap formatToN behind

end Step

/-- How a logger is used: it is destroyed when all calls of `log` have returned, and not called
any more. -/
def Proper (s : Life Thread File RecordSize) : LifeAction Thread Message → Prop
  | .log _ _ _ => s.owner = .alive
  | .destroy => ∀ thread, s.logger.pc (.caller thread) = .idle
  | _ => True

end Logger

end Sheep
