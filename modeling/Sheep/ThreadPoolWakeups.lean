/-
This file finds out when the thread pool loses a wakeup. `submit` and
`stop_work_thread` change what workers wait for without holding `idle_mutex_`, so
a notification can come while a worker has found its predicate false and is not
asleep yet. If nobody else is left who would look again, the session stays in the
queue, or the destructor waits for a worker that sleeps.
-/

import Sheep.ThreadPool

namespace Sheep

namespace ThreadPool

variable {n : Nat} {Submitter Coro Conn : Type}

/-! ### Lost wakeups -/

/-- A worker whose predicate comes out false, and who is not asleep yet. -/
def WorkerPc.Drowsy (tail : UInt64) (requestStop : Bool) : WorkerPc Coro Conn → Prop
  | .loadTail head => head = tail ∧ requestStop = false
  | .loadStop => requestStop = false
  | .sleep => True
  | _ => False

/-- `stop_work_thread` has not been called, or its `notify_all` is over. -/
def StopPc.Settled : StopPc → Prop
  | .notCalled => True
  | .join _ => True
  | .returned => True
  | _ => False

/-- The `notify_all` of `stop_work_thread` is over. -/
def StopPc.Notified : StopPc → Prop
  | .join _ => True
  | .returned => True
  | _ => False

theorem StopPc.Notified.settled {stopper : StopPc} (notified : stopper.Notified) :
    stopper.Settled := by
  cases stopper <;> first | exact trivial | exact notified

theorem StopPc.Notified.called {stopper : StopPc} (notified : stopper.Notified) :
    stopper ≠ .notCalled := by
  rintro rfl
  exact notified

section Notions

variable (s : State n Submitter Coro Conn)

def Asleep (worker : Fin n) : Prop := s.worker worker = .asleep

def Drowsy (worker : Fin n) : Prop :=
  (s.worker worker).Drowsy s.sessionQueue.tail s.requestStop

/-- A notification that is given now does not make the worker evaluate its predicate again, unless
it wakes the worker up. -/
def Gone (worker : Fin n) : Prop := Asleep s worker ∨ Drowsy s worker

/-- No call owes a notification. -/
def Quiet : Prop := (∀ submitter, s.submitter submitter = .idle) ∧ s.stopper.Settled

/-- There is something to wake up for. -/
def Due : Prop := s.sessionQueue.head ≠ s.sessionQueue.tail ∨ s.requestStop = true

/-- Every worker is asleep, no notification will come, and there is something to wake up for. -/
def Lost : Prop := Quiet s ∧ Due s ∧ ∀ worker, Asleep s worker

/-- A worker is asleep, no notification will come, and `stop_work_thread` joins all workers. -/
def JoinHangs : Prop := Quiet s ∧ s.stopper.Notified ∧ ∃ worker, Asleep s worker

/-- Only what is drowsy, if anything, is missing to be lost. -/
def Stalled : Prop := Quiet s ∧ Due s ∧ ∀ worker, Gone s worker

/-- The last notification that is owed, and it wakes nobody up by itself. -/
def LastNotice : Action n Submitter Coro Conn → Prop
  | .notifyOne submitter none =>
      (∀ other, other ≠ submitter → s.submitter other = .idle) ∧ s.stopper.Settled
  | .notifyAll => ∀ submitter, s.submitter submitter = .idle
  | _ => False

/-- The last notification is given while every worker is drowsy. -/
def Missed (action : Action n Submitter Coro Conn) : Prop :=
  LastNotice s action ∧ Due s ∧ ∀ worker, Drowsy s worker

/-- The last notification is given while some worker is drowsy and all shall stop. -/
def MissedStop (action : Action n Submitter Coro Conn) : Prop :=
  LastNotice s action ∧ s.requestStop = true ∧ ∃ worker, Drowsy s worker

end Notions

/-! ### What a worker does -/

/-- A worker holds the mutex while it evaluates its predicate. -/
def WorkerPc.holds : WorkerPc Coro Conn → Bool
  | .loadHead => true
  | .loadTail _ => true
  | .loadStop => true
  | .sleep => true
  | .unlock => true
  | _ => false

/-- The steps of a worker, as far as its sleep is concerned. -/
inductive Moves (s next : State n Submitter Coro Conn) (worker : Fin n) :
    WorkerPc Coro Conn → WorkerPc Coro Conn → Prop
  | lock {pc : WorkerPc Coro Conn} : pc.holds = false → s.idleMutex = none →
      next.idleMutex = some worker → Moves s next worker pc .loadHead
  | loadHead : next.idleMutex = s.idleMutex → next.sessionQueue = s.sessionQueue →
      Moves s next worker .loadHead (.loadTail s.sessionQueue.head)
  | loadTail : next.idleMutex = s.idleMutex → next.sessionQueue = s.sessionQueue →
      Moves s next worker (.loadTail s.sessionQueue.tail) .loadStop
  | loadStop : next.idleMutex = s.idleMutex → next.sessionQueue = s.sessionQueue →
      s.requestStop = false → Moves s next worker .loadStop .sleep
  | sleep : next.idleMutex = none → next.sessionQueue = s.sessionQueue →
      Moves s next worker .sleep .asleep
  | accept {pc : WorkerPc Coro Conn} : pc.holds = true → next.idleMutex = s.idleMutex →
      Moves s next worker pc .unlock
  | unlock {session : SessionWrapper Coro Conn} : next.idleMutex = none →
      Moves s next worker .unlock (.tryPop session)
  | outside {pc pc' : WorkerPc Coro Conn} : pc.holds = false → pc'.holds = false →
      pc' ≠ .asleep → next.idleMutex = s.idleMutex → Moves s next worker pc pc'

variable {s next : State n Submitter Coro Conn} {worker : Fin n}
  {events : List (Event n Submitter Coro Conn)}

/-- A step of a worker moves it and nobody else. -/
structure Advanced (s next : State n Submitter Coro Conn) (worker : Fin n) : Prop where
  submitter : next.submitter = s.submitter
  stopper : next.stopper = s.stopper
  requestStop : next.requestStop = s.requestStop
  others : ∀ other, other ≠ worker → next.worker other = s.worker other
  moves : Moves s next worker (s.worker worker) (next.worker worker)

theorem advanced_setWorker {middle : State n Submitter Coro Conn} {pc : WorkerPc Coro Conn}
    (submitter : middle.submitter = s.submitter) (stopper : middle.stopper = s.stopper)
    (requestStop : middle.requestStop = s.requestStop) (workers : middle.worker = s.worker)
    (moves : Moves s (middle.setWorker worker pc) worker (s.worker worker) pc) :
    Advanced s (middle.setWorker worker pc) worker := by
  refine ⟨submitter, stopper, requestStop, fun other different => ?_, ?_⟩
  · rw [State.setWorker_worker_other _ _ _ different, workers]
  · rw [State.setWorker_worker_self]
    exact moves

theorem holds_afterPop (session : SessionWrapper Coro Conn)
    (value : Option MPMCQueue.Returned) : (afterPop session value).holds = false := by
  rw [afterPop.eq_def]
  split <;> rfl

theorem afterPop_ne_asleep (session : SessionWrapper Coro Conn)
    (value : Option MPMCQueue.Returned) : afterPop session value ≠ .asleep := by
  rw [afterPop.eq_def]
  split <;> exact nofun

/-! ### The mutex -/

/-- Who evaluates the predicate holds the mutex. -/
def Held (s : State n Submitter Coro Conn) : Prop :=
  ∀ worker, (s.worker worker).holds = true → s.idleMutex = some worker

theorem holds_of_drowsy (drowsy : Drowsy s worker) : (s.worker worker).holds = true := by
  rw [Drowsy] at drowsy
  cases pc : s.worker worker <;> rw [pc] at drowsy <;> first | rfl | exact absurd drowsy id

/-- At most one worker is drowsy. -/
theorem drowsy_alone (held : Held s) {other : Fin n} (first : Drowsy s worker)
    (second : Drowsy s other) : worker = other :=
  Option.some.inj ((held _ (holds_of_drowsy first)).symm.trans (held _ (holds_of_drowsy second)))

theorem held_advanced (held : Held s) (advanced : Advanced s next worker) : Held next := by
  have kept (mutex : next.idleMutex = s.idleMutex)
      (holds : (next.worker worker).holds = true → (s.worker worker).holds = true) :
      Held next := by
    intro other inside
    rw [mutex]
    by_cases this : other = worker
    · subst this
      exact held other (holds inside)
    · rw [advanced.others other this] at inside
      exact held other inside
  have released (inside : (s.worker worker).holds = true)
      (outside : (next.worker worker).holds = false) : Held next := by
    intro other inside'
    by_cases this : other = worker
    · subst this
      rw [outside] at inside'
      cases inside'
    · rw [advanced.others other this] at inside'
      exact absurd (Option.some.inj ((held other inside').symm.trans (held worker inside))) this
  have moves := advanced.moves
  generalize before : s.worker worker = pc at moves kept released
  generalize after : next.worker worker = pc' at moves kept released
  cases moves with
  | lock outside free taken =>
    intro other inside
    by_cases this : other = worker
    · rw [this, taken]
    · rw [advanced.others other this] at inside
      have owner := held other inside
      rw [free] at owner
      cases owner
  | loadHead mutex _ => exact kept mutex fun _ => rfl
  | loadTail mutex _ => exact kept mutex fun _ => rfl
  | loadStop mutex _ _ => exact kept mutex fun _ => rfl
  | sleep _ _ => exact released rfl rfl
  | accept inside mutex => exact kept mutex fun _ => inside
  | unlock _ => exact released rfl rfl
  | outside _ outside _ mutex =>
    refine kept mutex fun inside => ?_
    rw [outside] at inside
    cases inside

/-- A worker that is asleep or drowsy after its step was drowsy before, or there is nothing to wake
up for. -/
theorem drowsy_of_advanced (advanced : Advanced s next worker)
    (gone : Gone next worker) :
    ¬ Due next ∨ Drowsy s worker ∧ next.sessionQueue = s.sessionQueue := by
  have moves := advanced.moves
  have stop := advanced.requestStop
  rw [Gone, Asleep, Drowsy] at gone
  rw [Drowsy]
  generalize s.worker worker = pc at moves ⊢
  generalize next.worker worker = pc' at moves gone
  cases moves with
  | lock _ _ _ => exact absurd gone fun either => either.elim nofun id
  | loadHead _ queue =>
    obtain ⟨empty, goOn⟩ := gone.resolve_left nofun
    refine Or.inl fun due => ?_
    rcases due with differ | stopped
    · rw [queue] at differ empty
      exact differ empty
    · rw [goOn] at stopped
      cases stopped
  | loadTail _ queue =>
    have goOn := gone.resolve_left nofun
    exact Or.inr ⟨⟨rfl, stop.symm.trans goOn⟩, queue⟩
  | loadStop _ queue goOn => exact Or.inr ⟨goOn, queue⟩
  | sleep _ queue => exact Or.inr ⟨trivial, queue⟩
  | accept _ _ => exact absurd gone fun either => either.elim nofun id
  | unlock _ => exact absurd gone fun either => either.elim nofun id
  | outside _ outside awake _ =>
    rcases gone with asleep | drowsy
    · exact absurd asleep awake
    · exfalso
      cases pc' <;> first | exact drowsy | cases outside

/-- What `notify_all` leaves behind was drowsy before. -/
theorem gone_of_wakeAll {stopper : StopPc} (gone : Gone { s.wakeAll with stopper } worker) :
    Drowsy s worker := by
  rw [Gone, Asleep, Drowsy] at gone
  rw [Drowsy]
  cases pc : s.worker worker <;>
    simp only [State.wakeAll, pc, WorkerPc.notified, reduceCtorEq, false_or] at gone <;>
    exact gone

theorem gone_of_same (pc : next.worker worker = s.worker worker)
    (tail : next.sessionQueue.tail = s.sessionQueue.tail ∨ s.requestStop = true)
    (requestStop : next.requestStop = s.requestStop) (gone : Gone next worker) :
    Gone s worker := by
  rw [Gone, Asleep, Drowsy] at *
  rw [← pc, ← requestStop]
  rcases tail with tail | stopped
  · rw [← tail]
    exact gone
  · refine gone.imp_right fun drowsy => ?_
    rw [← requestStop] at stopped
    cases pc : next.worker worker <;> rw [pc] at drowsy <;> first | exact drowsy | skip
    rw [stopped] at drowsy
    cases drowsy.2

theorem not_gone_woken (s : State n Submitter Coro Conn) (worker : Fin n) :
    ¬ Gone (s.setWorker worker .woken) worker := by
  rw [Gone, Asleep, Drowsy, State.setWorker_worker_self]
  exact fun either => either.elim nofun id

/-- `request_stop_` is set exactly by `stop_work_thread`. -/
def Called (s : State n Submitter Coro Conn) : Prop :=
  s.stopper ≠ .notCalled ↔ s.requestStop = true

/-- Once `notify_all` is over at most one worker is still going to sleep, and only while some call
owes a notification. -/
structure StopsWell (s : State n Submitter Coro Conn) : Prop where
  alone : s.stopper.Notified → ∀ worker other, Gone s worker → Gone s other → worker = other
  awake : s.stopper.Notified → Quiet s → ∀ worker, ¬ Gone s worker

/-- When nobody has gone to sleep meanwhile. -/
theorem StopsWell.of_gone (well : StopsWell s) (called : Called s)
    (notified : next.stopper.Notified → s.stopper.Notified)
    (gone : s.requestStop = true → ∀ worker, Gone next worker → Gone s worker)
    (quiet : Quiet next → Quiet s) : StopsWell next := by
  have stopped (ended : next.stopper.Notified) : s.requestStop = true :=
    called.mp (notified ended).called
  refine ⟨fun ended worker other first second => ?_, fun ended still worker inside => ?_⟩
  · exact well.alone (notified ended) worker other (gone (stopped ended) worker first)
      (gone (stopped ended) other second)
  · exact well.awake (notified ended) (quiet still) worker (gone (stopped ended) worker inside)

section Actions

variable [DecidableEq Submitter]

/-! ### What happens to the pool -/

/-- The actions of the pool, as far as sleep and notifications are concerned. -/
inductive Happens (s next : State n Submitter Coro Conn) : Action n Submitter Coro Conn → Prop
  | work {worker : Fin n} {ends : Coro → Bool} : Advanced s next worker →
      Happens s next (.work worker ends)
  | wake {worker : Fin n} : next = s.setWorker worker .woken → Happens s next (.wake worker)
  | call {action : Action n Submitter Coro Conn} (submitter : Submitter) :
      next.worker = s.worker → next.idleMutex = s.idleMutex → next.requestStop = s.requestStop →
      next.stopper = s.stopper → next.submitter submitter ≠ .idle → ¬ LastNotice s action →
      Happens s next action
  | notifyOne {submitter : Submitter} {worker : Fin n} : Asleep s worker →
      next = (s.setWorker worker .woken).setSubmitter submitter .idle →
      Happens s next (.notifyOne submitter (some worker))
  | notifyNobody {submitter : Submitter} : (∀ worker, ¬ Asleep s worker) →
      next = s.setSubmitter submitter .idle → Happens s next (.notifyOne submitter none)
  | stop : s.stopper = .notCalled →
      next = { s with requestStop := true, stopper := .requestStop 0 } → Happens s next .stop
  | requestStop {i : Nat} {asked : Fin n → Bool} {stopper : StopPc} :
      s.stopper = .requestStop i →
      stopper = .requestStop (i + 1) ∨ stopper = .notifyAll →
      next = { s with stopRequested := asked, stopper := stopper } →
      Happens s next .requestStop
  | notifyAll : s.stopper = .notifyAll → next = { s.wakeAll with stopper := .join 0 } →
      Happens s next .notifyAll
  | join {stopper : StopPc} : s.stopper.Notified → stopper.Notified →
      next = { s with stopper := stopper } → Happens s next .join

/-! ### Invariants -/

/-- The pool stalls only when a notification is missed. -/
theorem not_stalled_of_happens {action : Action n Submitter Coro Conn} (ready : ¬ Stalled s)
    (heard : ¬ Missed s action) (happens : Happens s next action) : ¬ Stalled next := by
  rintro ⟨⟨idle, settled⟩, due, gone⟩
  cases happens with
  | @work worker ends advanced =>
    refine ((drowsy_of_advanced advanced (gone worker)).resolve_left (not_not.mpr due)).elim
      fun drowsy queue => ready ⟨⟨fun submitter => ?_, ?_⟩, ?_, fun other => ?_⟩
    · rw [← advanced.submitter]
      exact idle submitter
    · rw [← advanced.stopper]
      exact settled
    · rw [Due, ← queue, ← advanced.requestStop]
      exact due
    · by_cases this : other = worker
      · subst this
        exact Or.inr drowsy
      · exact gone_of_same (advanced.others other this) (Or.inl (by rw [queue]))
          advanced.requestStop (gone other)
  | @wake worker same =>
    subst same
    exact not_gone_woken s worker (gone worker)
  | call submitter _ _ _ _ busy _ => exact busy (idle submitter)
  | @notifyOne submitter worker asleep same =>
    subst same
    exact not_gone_woken s worker (gone worker)
  | @notifyNobody submitter awake same =>
    subst same
    refine heard ⟨⟨fun other different => ?_, settled⟩, due, fun worker => ?_⟩
    · rw [← idle other, State.setSubmitter_submitter_other _ _ _ different]
    · exact (gone worker).resolve_left (awake worker)
  | stop _ same =>
    subst same
    exact settled
  | requestStop _ onward same =>
    subst same
    rcases onward with rfl | rfl <;> exact settled
  | notifyAll _ same =>
    subst same
    exact heard ⟨idle, due, fun worker => gone_of_wakeAll (gone worker)⟩
  | join notified _ same =>
    subst same
    refine ready ⟨⟨idle, ?_⟩, due, gone⟩
    exact notified.settled

theorem held_of_happens {action : Action n Submitter Coro Conn} (held : Held s)
    (happens : Happens s next action) : Held next := by
  have woken (worker : Fin n) : Held (s.setWorker worker .woken) := by
    intro other inside
    by_cases this : other = worker
    · subst this
      rw [State.setWorker_worker_self] at inside
      cases inside
    · rw [State.setWorker_worker_other _ _ _ this] at inside
      exact held other inside
  cases happens with
  | work advanced => exact held_advanced held advanced
  | wake same => exact same ▸ woken _
  | call _ workers mutex _ _ _ _ =>
    intro other inside
    rw [workers] at inside
    rw [mutex]
    exact held other inside
  | notifyOne _ same => exact same ▸ woken _
  | notifyNobody _ same => exact same ▸ held
  | stop _ same => exact same ▸ held
  | requestStop _ _ same => exact same ▸ held
  | notifyAll _ same =>
    subst same
    intro other inside
    refine held other ?_
    cases pc : s.worker other <;> simp only [State.wakeAll, pc, WorkerPc.notified] at inside <;>
      exact inside
  | join _ _ same => exact same ▸ held

theorem called_of_happens {action : Action n Submitter Coro Conn} (called : Called s)
    (happens : Happens s next action) : Called next := by
  have asked {i : Nat} (asking : s.stopper = .requestStop i ∨ s.stopper = .notifyAll) :
      s.requestStop = true := by
    refine called.mp ?_
    rcases asking with same | same <;> rw [same] <;> exact nofun
  cases happens with
  | work advanced =>
    rw [Called, advanced.stopper, advanced.requestStop]
    exact called
  | wake same => exact same ▸ called
  | call _ _ _ requestStop stopper _ _ =>
    rw [Called, stopper, requestStop]
    exact called
  | notifyOne _ same => exact same ▸ called
  | notifyNobody _ same => exact same ▸ called
  | stop _ same =>
    subst same
    exact iff_of_true nofun rfl
  | requestStop asking onward same =>
    subst same
    rcases onward with rfl | rfl <;> exact iff_of_true nofun (asked (Or.inl asking))
  | notifyAll notifying same =>
    subst same
    exact iff_of_true nofun (asked (Or.inr notifying) (i := 0))
  | join before after same =>
    subst same
    exact iff_of_true after.called (called.mp before.called)

theorem stopsWell_of_happens {action : Action n Submitter Coro Conn} (well : StopsWell s)
    (called : Called s) (held : Held s) (heard : ¬ MissedStop s action)
    (happens : Happens s next action) : StopsWell next := by
  cases happens with
  | @work worker ends advanced =>
    refine well.of_gone called ?_ (fun stopped other gone => ?_) fun still => ?_
    · rw [advanced.stopper]
      exact id
    · by_cases this : other = worker
      · subst this
        refine Or.inr ((drowsy_of_advanced advanced gone).resolve_left (not_not.mpr ?_)).1
        exact Or.inr (advanced.requestStop.trans stopped)
      · exact gone_of_same (advanced.others other this) (Or.inr stopped) advanced.requestStop gone
    · rw [Quiet, advanced.submitter, advanced.stopper] at still
      exact still
  | @wake worker same =>
    subst same
    refine well.of_gone called id (fun _ other gone => ?_) id
    have different : other ≠ worker := by
      rintro rfl
      exact not_gone_woken s other gone
    exact gone_of_same (State.setWorker_worker_other _ _ _ different) (Or.inl rfl) rfl gone
  | call submitter workers _ requestStop stopper busy _ =>
    refine well.of_gone called ?_ (fun stopped other gone => ?_) fun still => ?_
    · rw [stopper]
      exact id
    · exact gone_of_same (by rw [workers]) (Or.inr stopped) requestStop gone
    · exact absurd (still.1 submitter) busy
  | @notifyOne submitter worker asleep same =>
    subst same
    -- the only worker that had gone has been woken
    have nobody (notified : s.stopper.Notified) (other : Fin n) :
        ¬ Gone ((s.setWorker worker .woken).setSubmitter submitter .idle) other := by
      intro gone
      have different : other ≠ worker := by
        rintro rfl
        exact not_gone_woken s other gone
      have before : Gone s other :=
        gone_of_same (State.setWorker_worker_other _ _ _ different) (Or.inl rfl) rfl gone
      exact different (well.alone notified other worker before (Or.inl asleep))
    exact ⟨fun notified worker _ gone => absurd gone (nobody notified worker),
      fun notified _ => nobody notified⟩
  | @notifyNobody submitter awake same =>
    subst same
    refine ⟨fun notified => well.alone notified, fun notified still worker gone => ?_⟩
    refine heard ⟨⟨fun other different => ?_, still.2⟩, ?_, worker,
      gone.resolve_left (awake worker)⟩
    · rw [← still.1 other, State.setSubmitter_submitter_other _ _ _ different]
    · exact called.mp (StopPc.Notified.called notified)
  | stop _ same =>
    subst same
    exact ⟨fun notified => absurd notified id, fun notified => absurd notified id⟩
  | requestStop _ onward same =>
    subst same
    rcases onward with rfl | rfl <;>
      exact ⟨fun notified => absurd notified id, fun notified => absurd notified id⟩
  | notifyAll notifying same =>
    subst same
    have stopped : s.requestStop = true := by
      refine called.mp ?_
      rw [notifying]
      exact nofun
    refine ⟨fun _ worker other first second => ?_, fun _ still worker gone => ?_⟩
    · exact drowsy_alone held (gone_of_wakeAll first) (gone_of_wakeAll second)
    · exact heard ⟨still.1, stopped, worker, gone_of_wakeAll gone⟩
  | join before _ same =>
    subst same
    exact well.of_gone called (fun _ => before) (fun _ _ => id)
      fun still => ⟨still.1, before.settled⟩

/-- After a last notice nobody owes a notification. It changes neither what workers look at nor
who is drowsy. -/
theorem quiet_of_lastNotice {action : Action n Submitter Coro Conn} (last : LastNotice s action)
    (happens : Happens s next action) : Quiet next ∧ next.requestStop = s.requestStop ∧
      next.sessionQueue = s.sessionQueue ∧ (∀ worker, Drowsy s worker → Drowsy next worker) ∧
      (next.stopper = s.stopper ∨ next.stopper.Notified) := by
  cases happens with
  | work _ => exact absurd last id
  | wake _ => exact absurd last id
  | call _ _ _ _ _ _ silent => exact absurd last silent
  | notifyOne _ _ => exact absurd last id
  | @notifyNobody submitter _ same =>
    subst same
    refine ⟨⟨fun other => ?_, last.2⟩, rfl, rfl, fun _ => id, Or.inl rfl⟩
    by_cases this : other = submitter
    · rw [this, State.setSubmitter_submitter_self]
    · rw [State.setSubmitter_submitter_other _ _ _ this]
      exact last.1 other this
  | stop _ _ => exact absurd last id
  | requestStop _ _ _ => exact absurd last id
  | notifyAll _ same =>
    subst same
    refine ⟨⟨last, trivial⟩, rfl, rfl, fun worker drowsy => ?_, Or.inr trivial⟩
    rw [Drowsy] at *
    cases pc : s.worker worker <;> rw [pc] at drowsy <;>
      simp only [State.wakeAll, pc, WorkerPc.notified] <;> exact drowsy
  | join _ _ _ => exact absurd last id

theorem stalled_of_missed {action : Action n Submitter Coro Conn} (missed : Missed s action)
    (happens : Happens s next action) : Stalled next := by
  obtain ⟨last, due, drowsy⟩ := missed
  obtain ⟨quiet, requestStop, queue, still, _⟩ := quiet_of_lastNotice last happens
  refine ⟨quiet, ?_, fun worker => Or.inr (still worker (drowsy worker))⟩
  rw [Due, queue, requestStop]
  exact due

end Actions

section System

variable [DecidableEq Submitter] [DecidableEq Coro] [DecidableEq Conn]

theorem advanced_advance {ends : Coro → Bool}
    (step : advance s worker ends (s.worker worker) = some (next, events)) :
    Advanced s next worker := by
  have outside {middle : State n Submitter Coro Conn} {pc : WorkerPc Coro Conn}
      (submitter : middle.submitter = s.submitter) (stopper : middle.stopper = s.stopper)
      (requestStop : middle.requestStop = s.requestStop) (workers : middle.worker = s.worker)
      (mutex : middle.idleMutex = s.idleMutex) (holds : (s.worker worker).holds = false)
      (holds' : pc.holds = false) (awake : pc ≠ .asleep) :
      Advanced s (middle.setWorker worker pc) worker :=
    advanced_setWorker submitter stopper requestStop workers (.outside holds holds' awake mutex)
  have locked (holds : (s.worker worker).holds = false)
      (step : s.lock worker = some (next, events)) : Advanced s next worker := by
    rw [State.lock] at step
    split at step
    · rename_i free
      cases step
      exact advanced_setWorker rfl rfl rfl rfl (.lock holds free rfl)
    · cases step
  cases pc : s.worker worker <;> rw [pc] at step outside locked <;> simp only [advance] at step
  case testStop =>
    split at step <;>
      · cases step
        exact outside rfl rfl rfl rfl rfl rfl rfl nofun
  case lock => exact locked rfl step
  case woken => exact locked rfl step
  case loadHead =>
    cases step
    refine advanced_setWorker rfl rfl rfl rfl ?_
    rw [pc]
    exact .loadHead rfl rfl
  case loadTail head =>
    split at step
    · cases step
      refine advanced_setWorker rfl rfl rfl rfl ?_
      rw [pc]
      exact .accept rfl rfl
    · rename_i empty
      cases step
      rw [not_not, UInt64.sub_eq_iff_eq_add, UInt64.zero_add] at empty
      refine advanced_setWorker rfl rfl rfl rfl ?_
      rw [pc, empty]
      exact .loadTail rfl rfl
  case loadStop =>
    split at step
    · cases step
      refine advanced_setWorker rfl rfl rfl rfl ?_
      rw [pc]
      exact .accept rfl rfl
    · rename_i goOn
      cases step
      refine advanced_setWorker rfl rfl rfl rfl ?_
      rw [pc]
      exact .loadStop rfl rfl (Bool.not_eq_true _ ▸ goOn)
  case sleep =>
    cases step
    refine advanced_setWorker rfl rfl rfl rfl ?_
    rw [pc]
    exact .sleep rfl rfl
  case unlock =>
    cases step
    refine advanced_setWorker rfl rfl rfl rfl ?_
    rw [pc]
    exact .unlock rfl
  case tryPop session =>
    obtain ⟨stepped, _, same⟩ := Option.map_eq_some_iff.mp step
    cases same
    exact outside rfl rfl rfl rfl rfl rfl rfl nofun
  case popping session =>
    obtain ⟨stepped, _, same⟩ := Option.map_eq_some_iff.mp step
    cases same
    refine outside rfl rfl rfl rfl rfl rfl ?_ ?_
    · exact holds_afterPop _ _
    · exact afterPop_ne_asleep _ _
  case setIoService session =>
    split at step
    · cases step
      exact outside rfl rfl rfl rfl rfl rfl rfl nofun
    · cases step
      cases session.conn <;> exact outside rfl rfl rfl rfl rfl rfl rfl nofun
  case resume session coro =>
    cases step
    split <;> exact outside rfl rfl rfl rfl rfl rfl rfl nofun
  case testList =>
    split at step <;>
      · cases step
        exact outside rfl rfl rfl rfl rfl rfl rfl nofun
  case waitIo =>
    cases step
    exact outside rfl rfl rfl rfl rfl rfl rfl nofun
  case erase =>
    cases step
    exact outside rfl rfl rfl rfl rfl rfl rfl nofun
  case asleep => cases step
  case finished => cases step

theorem happens_of_step {action : Action n Submitter Coro Conn}
    (step : system s action = some (next, events)) : Happens s next action := by
  cases action with
  | work worker ends => exact .work (advanced_advance step)
  | wake worker =>
    simp only [system] at step
    split at step
    · cases step
      exact .wake rfl
    · cases step
  | submit submitter session =>
    simp only [system] at step
    split at step
    · obtain ⟨stepped, _, same⟩ := Option.map_eq_some_iff.mp step
      cases same
      refine .call submitter rfl rfl rfl rfl ?_ id
      rw [State.setSubmitter_submitter_self]
      exact nofun
    · cases step
  | emplace submitter =>
    simp only [system] at step
    split at step
    · obtain ⟨stepped, _, same⟩ := Option.map_eq_some_iff.mp step
      cases same
      refine .call submitter rfl rfl rfl rfl ?_ id
      rw [State.setSubmitter_submitter_self]
      split <;> exact nofun
    · cases step
  | notifyOne submitter woken =>
    cases woken with
    | none =>
      simp only [system] at step
      split at step
      · rename_i nobody
        cases step
        refine .notifyNobody (fun worker asleep => nobody.2 worker ?_) rfl
        rw [Asleep] at asleep
        rw [asleep]
        rfl
      · cases step
    | some worker =>
      simp only [system] at step
      split at step
      · split at step
        · rename_i asleep
          cases step
          exact .notifyOne asleep rfl
        · cases step
      · cases step
  | stop =>
    simp only [system] at step
    split at step
    · rename_i notCalled
      cases step
      exact .stop notCalled rfl
    · cases step
  | requestStop =>
    simp only [system] at step
    split at step
    · rename_i i asking
      split at step
      · cases step
        exact .requestStop asking (Or.inl rfl) rfl
      · cases step
        exact .requestStop asking (Or.inr rfl) rfl
    · cases step
  | notifyAll =>
    simp only [system] at step
    split at step
    · rename_i notifying
      cases step
      exact .notifyAll notifying rfl
    · cases step
  | join =>
    simp only [system] at step
    split at step
    · rename_i i joining
      have notified : s.stopper.Notified := by
        rw [joining]
        exact trivial
      split at step
      · split at step
        · cases step
          refine .join notified ?_ rfl
          exact trivial
        · cases step
      · cases step
        refine .join notified ?_ rfl
        exact trivial
    · cases step

/-! ### Falling asleep -/

/-- Nothing but the mutex and one worker, who has fallen asleep, is different. -/
structure FellAsleep (s later : State n Submitter Coro Conn) (worker : Fin n) : Prop where
  worker : later.worker = Function.update s.worker worker .asleep
  submitter : later.submitter = s.submitter
  stopper : later.stopper = s.stopper
  requestStop : later.requestStop = s.requestStop
  sessionQueue : later.sessionQueue = s.sessionQueue

/-- A worker can fall asleep in some steps of its own. -/
def FallsAsleep (s : State n Submitter Coro Conn) (worker : Fin n) : Prop :=
  ∃ later trace, Transitions.Reaches system s later trace ∧ FellAsleep s later worker

theorem fallsAsleep_after (pc : WorkerPc Coro Conn)
    (step : system s (.work worker fun _ => false) = some (s.setWorker worker pc, []))
    (falls : FallsAsleep (s.setWorker worker pc) worker) : FallsAsleep s worker := by
  obtain ⟨later, trace, run, fell⟩ := falls
  refine ⟨later, _, run.after step, ?_, fell.submitter, fell.stopper, fell.requestStop,
    fell.sessionQueue⟩
  rw [fell.worker, State.setWorker, Function.update_idem]

/-- A drowsy worker can fall asleep. -/
theorem fallsAsleep_of_drowsy (drowsy : Drowsy s worker) : FallsAsleep s worker := by
  have sleep (s : State n Submitter Coro Conn) (pc : s.worker worker = .sleep) :
      FallsAsleep s worker := by
    have step : system s (.work worker fun _ => false) =
        some ({ s with idleMutex := none }.setWorker worker .asleep, []) := by
      rw [system, pc]
      rfl
    exact ⟨_, _, .next .start step, rfl, rfl, rfl, rfl, rfl⟩
  have loadStop (s : State n Submitter Coro Conn) (pc : s.worker worker = .loadStop)
      (goOn : s.requestStop = false) : FallsAsleep s worker := by
    refine fallsAsleep_after .sleep ?_ (sleep _ (State.setWorker_worker_self ..))
    rw [system, pc, advance, goOn]
    rfl
  rw [Drowsy] at drowsy
  cases pc : s.worker worker <;> rw [pc] at drowsy
  case loadTail head =>
    obtain ⟨rfl, goOn⟩ := drowsy
    refine fallsAsleep_after .loadStop ?_
      (loadStop _ (State.setWorker_worker_self ..) goOn)
    rw [system, pc, advance, if_neg]
    rw [not_not, UInt64.sub_self]
  case loadStop => exact loadStop s pc drowsy
  case sleep => exact sleep s pc
  all_goals exact absurd drowsy id

/-- From a stalled pool a lost wakeup is reached, with no help but that of the drowsy worker. -/
theorem lost_of_stalled (held : Held s) (stalled : Stalled s) :
    ∃ later trace, Transitions.Reaches system s later trace ∧ Lost later := by
  obtain ⟨⟨idle, settled⟩, due, gone⟩ := stalled
  by_cases this : ∃ worker, Drowsy s worker
  · obtain ⟨worker, drowsy⟩ := this
    obtain ⟨later, trace, run, fell⟩ := fallsAsleep_of_drowsy drowsy
    refine ⟨later, trace, run, ⟨?_, ?_⟩, ?_, fun other => ?_⟩
    · rw [fell.submitter]
      exact idle
    · rw [fell.stopper]
      exact settled
    · rw [Due, fell.sessionQueue, fell.requestStop]
      exact due
    · rw [Asleep, fell.worker]
      by_cases same : other = worker
      · rw [same, Function.update_self]
      · rw [Function.update_of_ne same]
        exact (gone other).resolve_right fun also => same (drowsy_alone held also drowsy)
  · exact ⟨s, [], .start, ⟨idle, settled⟩, due,
      fun worker => (gone worker).resolve_right fun drowsy => this ⟨worker, drowsy⟩⟩

theorem joinHangs_of_drowsy (quiet : Quiet s) (notified : s.stopper.Notified)
    (drowsy : Drowsy s worker) :
    ∃ later trace, Transitions.Reaches system s later trace ∧ JoinHangs later := by
  obtain ⟨later, trace, run, fell⟩ := fallsAsleep_of_drowsy drowsy
  refine ⟨later, trace, run, ⟨?_, ?_⟩, ?_, worker, ?_⟩
  · rw [fell.submitter]
    exact quiet.1
  · rw [fell.stopper]
    exact quiet.2
  · rw [fell.stopper]
    exact notified
  · rw [Asleep, fell.worker, Function.update_self]

theorem joinHangs_of_missedStop {action : Action n Submitter Coro Conn} (called : Called s)
    (missed : MissedStop s action) (happens : Happens s next action) :
    ∃ later trace, Transitions.Reaches system next later trace ∧ JoinHangs later := by
  obtain ⟨last, stopped, worker, drowsy⟩ := missed
  obtain ⟨quiet, _, _, still, stopper⟩ := quiet_of_lastNotice last happens
  refine joinHangs_of_drowsy quiet ?_ (still worker drowsy)
  rcases stopper with same | notified
  · have called := called.mpr stopped
    have settled := quiet.2
    rw [same] at settled ⊢
    cases stopper : s.stopper <;> rw [stopper] at called settled <;> trivial
  · exact notified

/-! ### When a wakeup is lost -/

variable {bytes : UInt64 → SessionWrapper Coro Conn} {trace : List (Event n Submitter Coro Conn)}

theorem held_of_reaches (run : Transitions.Reaches system (start bytes) s trace) : Held s :=
  run.invariant (fun s _ => Held s) (fun _ inside => Bool.noConfusion inside)
    fun _ _ _ _ _ _ held step => held_of_happens held (happens_of_step step)

theorem called_of_reaches (run : Transitions.Reaches system (start bytes) s trace) : Called s :=
  run.invariant (fun s _ => Called s) (iff_of_false (fun called => called rfl) nofun)
    fun _ _ _ _ _ _ called step => called_of_happens called (happens_of_step step)

theorem not_lost_of_reachesBy
    (run : Transitions.ReachesBy (fun s action => ¬ Missed s action) system (start bytes) s trace) :
    ¬ Lost s := by
  have ready : ¬ Stalled s := by
    refine run.invariant (fun s _ => ¬ Stalled s) ?_
      fun _ _ _ _ _ _ ready heard step => not_stalled_of_happens ready heard (happens_of_step step)
    exact fun stalled => stalled.2.1.elim (fun differ => differ rfl) nofun
  exact fun lost => ready ⟨lost.1, lost.2.1, fun worker => Or.inl (lost.2.2 worker)⟩

theorem not_joinHangs_of_reachesBy
    (run : Transitions.ReachesBy (fun s action => ¬ MissedStop s action) system (start bytes) s
      trace) : ¬ JoinHangs s := by
  have well : StopsWell s := by
    refine run.invariant (fun s _ => StopsWell s) ?_ ?_
    · exact ⟨fun notified => absurd notified id, fun notified => absurd notified id⟩
    · exact fun _ _ _ _ _ run well heard step => stopsWell_of_happens well
        (called_of_reaches run.reaches) (held_of_reaches run.reaches) heard (happens_of_step step)
  exact fun ⟨quiet, notified, worker, asleep⟩ =>
    well.awake notified quiet worker (Or.inl asleep)

/-- With two workers or more no session is lost: while one of them is drowsy, another can be woken
or is awake. -/
theorem not_lost_of_two (two : 1 < n) (run : Transitions.Reaches system (start bytes) s trace) :
    ¬ Lost s := by
  refine not_lost_of_reachesBy (run.reachesBy fun s trace action run missed => ?_)
  have drowsy := missed.2.2
  have same := drowsy_alone (held_of_reaches run) (drowsy ⟨0, by omega⟩) (drowsy ⟨1, two⟩)
  exact absurd (congrArg Fin.val same) Nat.zero_ne_one

/-- When wakeups are lost, for sessions and for the destructor. -/
structure LosesWakeups (n : Nat) (Submitter : Type) [DecidableEq Submitter]
    (bytes : UInt64 → SessionWrapper Coro Conn) : Prop where
  /-- No session is lost while no notification is missed. -/
  kept : ∀ (s : State n Submitter Coro Conn) trace,
    Transitions.ReachesBy (fun s action => ¬ Missed s action) system (start bytes) s trace →
    ¬ Lost s
  /-- After a notification that is missed, a wakeup can be lost with no further call. -/
  lost : ∀ (s : State n Submitter Coro Conn) trace action next events,
    Transitions.Reaches system (start bytes) s trace → Missed s action →
    system s action = some (next, events) →
    ∃ later trace', Transitions.Reaches system next later trace' ∧ Lost later
  /-- With two workers or more no session is lost in any run. -/
  spared : 1 < n → ∀ (s : State n Submitter Coro Conn) trace,
    Transitions.Reaches system (start bytes) s trace → ¬ Lost s
  /-- The destructor does not wait for a sleeping worker while no notification to stop is missed. -/
  joins : ∀ (s : State n Submitter Coro Conn) trace,
    Transitions.ReachesBy (fun s action => ¬ MissedStop s action) system (start bytes) s trace →
    ¬ JoinHangs s
  hangs : ∀ (s : State n Submitter Coro Conn) trace action next events,
    Transitions.Reaches system (start bytes) s trace → MissedStop s action →
    system s action = some (next, events) →
    ∃ later trace', Transitions.Reaches system next later trace' ∧ JoinHangs later

/-- Wakeups are lost exactly by notifications that come while workers are drowsy. -/
theorem losesWakeups (bytes : UInt64 → SessionWrapper Coro Conn) :
    LosesWakeups n Submitter bytes where
  kept _ _ run := not_lost_of_reachesBy run
  lost _ _ _ _ _ run missed step := lost_of_stalled
    (held_of_happens (held_of_reaches run) (happens_of_step step))
    (stalled_of_missed missed (happens_of_step step))
  spared two _ _ run := not_lost_of_two two run
  joins _ _ run := not_joinHangs_of_reachesBy run
  hangs _ _ _ _ _ run missed step :=
    joinHangs_of_missedStop (called_of_reaches run) missed (happens_of_step step)

end System

section Example

/-- The only worker is asleep when a session is submitted, and is woken up. -/
def promptNotice : List (Action 1 Unit Unit Unit) :=
  List.replicate 6 (.work 0 fun _ => false) ++ [.submit () ⟨some (), some ()⟩] ++
    List.replicate 4 (.emplace ()) ++ [.notifyOne () (some 0)] ++
    List.replicate 6 (.work 0 fun _ => false)

theorem losesWakeups_promptNotice : ∃ s trace,
    Transitions.execute system (start fun _ => ⟨none, none⟩) promptNotice = some (s, trace) ∧
    ¬ Lost s := by
  have seen : (Transitions.execute system (start fun _ => ⟨none, none⟩) promptNotice).isSome =
      true := rfl
  obtain ⟨⟨s, trace⟩, executed⟩ := Option.isSome_iff_exists.mp seen
  refine ⟨s, trace, executed, (losesWakeups _).kept s trace (Transitions.reachesBy_of_execute ?_
    executed)⟩
  intro action member state missed
  simp only [promptNotice, List.mem_append, List.mem_replicate, List.mem_singleton] at member
  rcases member with (((⟨_, rfl⟩ | rfl) | ⟨_, rfl⟩) | rfl) | ⟨_, rfl⟩ <;> exact missed.1

/-- The only worker finds the queue empty; a session is submitted before it sleeps. -/
def lateNotice : List (Action 1 Unit Unit Unit) :=
  List.replicate 5 (.work 0 fun _ => false) ++ [.submit () ⟨some (), some ()⟩] ++
    List.replicate 4 (.emplace ()) ++ [.notifyOne () none, .work 0 fun _ => false]

theorem not_kept_lateNotice : ¬ ∀ (s : State 1 Unit Unit Unit) trace,
    Transitions.Reaches system (start fun _ => ⟨none, none⟩) s trace → ¬ Lost s := by
  have seen : (Transitions.execute system (start fun _ => ⟨none, none⟩) lateNotice).map
      (fun reached => (reached.1.worker 0, reached.1.submitter (), reached.1.stopper,
        reached.1.sessionQueue.head, reached.1.sessionQueue.tail)) =
      some (.asleep, .idle, .notCalled, 1, 0) := rfl
  obtain ⟨⟨s, trace⟩, executed, same⟩ := Option.map_eq_some_iff.mp seen
  injection same with worker same
  injection same with submitter same
  injection same with stopper same
  injection same with head tail
  intro kept
  refine kept s trace (Transitions.reaches_of_execute executed) ⟨⟨fun _ => submitter, ?_⟩, ?_, ?_⟩
  · rw [stopper]
    exact trivial
  · refine Or.inl ?_
    rw [head, tail]
    decide
  · intro worker'
    rw [Subsingleton.elim worker' 0]
    exact worker

end Example

end ThreadPool

end Sheep
