/-
This file proves that a session belongs to the worker that has started it. The
io_service of its Connection is set before the first resume and never again, so every
operation of the session is in the ring of this worker, and no other worker comes to
its completion. From the test after the first resume on, the session is in the
coroutine list of the worker until it is destroyed.
-/

import Sheep.SessionRelease

namespace Sheep

namespace Sessions

open Transitions

variable {n : Nat} {s next : State n} {trace events : List (Event n)} {session : Nat}
  {life : Life n} {worker : Fin n}

/-! ### Where a session is resumed -/

/-- A session is resumed by the worker that has set its io_service. -/
theorem life_of_resumed {turn : Turn n} {life' : Life n} {first : Bool}
    (step : lifeOf session life turn = some (life', events))
    (resumed : Event.resumed worker session first ∈ events) :
    first = true ∧ life = .ready worker ∨ first = false ∧ life = .suspended worker := by
  cases life <;> cases turn <;> (try cases ‹Bool›) <;> cases step <;> simp_all

/-- In a state in which a worker resumes a session, the io_service of its Connection is that of the
worker. -/
theorem ioService_of_resumed {action : Action n} {first : Bool} (fits : Fits session s life)
    (step : system s action = some (next, events))
    (resumed : Event.resumed worker session first ∈ events) :
    ∃ point, s.frames session = some ⟨point, some worker⟩ := by
  have member : Event.resumed worker session first ∈ aboutSession session events :=
    (mem_aboutSession rfl).mpr resumed
  rcases follows_of_step fits step with ⟨silent, -⟩ | ⟨turn, life', turned, -⟩
  · rw [silent] at member
    cases member
  · rcases life_of_resumed turned member with ⟨-, rfl⟩ | ⟨-, rfl⟩
    · exact ⟨_, fits.frame⟩
    · exact ⟨_, fits.frame⟩

/-! ### Where a session is suspended -/

/-- A started session that neither runs nor has come to its end is suspended, in the coroutine list
of its worker or on the way there. -/
theorem life_of_waiting (fits : Fits session s life) (owner : life.owner = some worker)
    (unfinished : life.isDone = false)
    (idle : ∀ v first, s.worker v ≠ .running session first) :
    life = .returned worker ∨ life = .suspended worker := by
  cases life with
  | running v first =>
    have held : s.worker v = .running session first := by
      cases first with
      | true => exact ((fits.holder v _).mpr rfl).1
      | false => exact ((fits.holder v _).mpr rfl).1
    exact absurd held (idle v first)
  | returned => cases owner; exact .inl rfl
  | suspended => cases owner; exact .inr rfl
  | unborn | queued | taken | ready => cases owner
  | unlisted | leaked | ended | destroyed => cases unfinished

theorem count_of_place {place : Option (Fin n)} (v : Fin n) (here : place = some worker) :
    (decide (place = some v)).toNat = if v = worker then 1 else 0 := by
  subst here
  by_cases same : v = worker
  · rw [if_pos same, same, decide_eq_true rfl]
    rfl
  · rw [if_neg same, decide_eq_false fun equal => same (Option.some.inj equal).symm]
    rfl

/-- A session that has been started by a worker keeps to it: only this worker resumes it, and while
it neither runs nor has come to its end, it is suspended, its pending operation is in the ring of
this worker and in no other, and it is in the coroutine list of this worker and in no other. There
is one moment when it is in no list: when it has been suspended in its first resume, and its worker
has not yet tested whether it is done. -/
structure KeepsTo (worker : Fin n) (session : Nat) (s : State n) (trace : List (Event n)) :
    Prop where
  resumed : ∀ v first, Event.resumed v session first ∈ trace → v = worker
  suspended : (∀ first, Event.ended session first ∉ trace) →
    (∀ v first, s.worker v ≠ .running session first) →
    s.frames session = some ⟨.suspended, some worker⟩
  pending : (∀ first, Event.ended session first ∉ trace) →
    (∀ v first, s.worker v ≠ .running session first) →
    ∀ v, (s.pending v ++ s.completed v).count session = if v = worker then 1 else 0
  listed : (∀ first, Event.ended session first ∉ trace) →
    (∀ v first, s.worker v ≠ .running session first) → s.worker worker ≠ .testDone session →
    ∀ v, (s.coroList v).count session = if v = worker then 1 else 0
  unlisted : s.worker worker = .testDone session → ∀ v, session ∉ s.coroList v

theorem keepsTo_of_fits (tells : Tells session (aboutSession session trace) life)
    (fits : Fits session s life)
    (started : Event.resumed worker session true ∈ trace) : KeepsTo worker session s trace := by
  have owner := tells.owner worker true ((mem_aboutSession rfl).mpr started)
  have waiting : (∀ first, Event.ended session first ∉ trace) →
      (∀ v first, s.worker v ≠ .running session first) →
      life = .returned worker ∨ life = .suspended worker := by
    intro unfinished idle
    refine life_of_waiting fits owner (Bool.not_eq_true _ ▸ fun isDone => ?_) idle
    obtain ⟨first, ended⟩ := tells.isDone.mpr isDone
    exact unfinished first ((mem_aboutSession rfl).mp ended)
  refine ⟨fun v first resumed => ?_, fun unfinished idle => ?_, fun unfinished idle v => ?_,
    fun unfinished idle tested v => ?_, fun at_pc v => ?_⟩
  · have same := tells.owner v first ((mem_aboutSession rfl).mpr resumed)
    rw [owner] at same
    exact (Option.some.inj same).symm
  · rcases waiting unfinished idle with rfl | rfl
    · exact fits.frame
    · exact fits.frame
  · rcases waiting unfinished idle with rfl | rfl
    · exact (fits.ring v).trans (count_of_place v rfl)
    · exact (fits.ring v).trans (count_of_place v rfl)
  · rcases waiting unfinished idle with rfl | rfl
    · exact absurd ((fits.holder worker _).mpr rfl).1 tested
    · exact (fits.list v).trans (count_of_place v rfl)
  · refine List.count_eq_zero.mp ((fits.list v).trans ?_)
    rcases fits.of_testDone at_pc with rfl | rfl
    · rfl
    · rfl

/-- In every state a run can reach, a session has been started at most once, every resume of it that
comes next finds the io_service of its worker in its Connection, and it keeps to the worker that has
started it. -/
theorem keepsTo_of_reaches (session : Nat) (run : Reaches system (start : State n) s trace) :
    trace.countP (Event.starts session) ≤ 1 ∧
    (∀ action next events worker first, system s action = some (next, events) →
      Event.resumed worker session first ∈ events →
      ∃ point, s.frames session = some ⟨point, some worker⟩) ∧
    ∀ worker, Event.resumed worker session true ∈ trace → KeepsTo worker session s trace := by
  obtain ⟨life, tells, fits⟩ := tells_of_run session run
  refine ⟨?_, fun action next events worker first step resumed =>
    ioService_of_resumed fits step resumed, fun worker started =>
    keepsTo_of_fits tells fits started⟩
  have started : trace.countP (Event.starts session) = life.owner.isSome.toNat := by
    rw [← tells.started, countP_aboutSession _ fun _ => session_of_starts]
  exact started ▸ Bool.toNat_le _

section Example

/-- A worker takes a session, which awaits an operation, and comes back to the queue. -/
def awaitsOnce (worker : Fin n) : List (Action n) :=
  firstResume worker ++ [.awaitIo worker, .work worker]

theorem keepsTo_awaitsOnce : ∃ s trace, Reaches system (start : State 2) s trace ∧
    trace.countP (Event.starts 0) ≤ 1 ∧ KeepsTo 0 0 s trace ∧
    (s.coroList 0).count 0 = 1 ∧ (s.coroList 1).count 0 = 0 := by
  have reached : (execute system (start : State 2) (awaitsOnce 0)).any (fun reached => decide
      (Event.resumed 0 0 true ∈ reached.2 ∧ (∀ first, Event.ended 0 first ∉ reached.2) ∧
        (∀ v first, reached.1.worker v ≠ .running 0 first) ∧
        reached.1.worker 0 ≠ .testDone 0)) = true := by
    decide +kernel
  obtain ⟨⟨s, trace⟩, executed, same⟩ := (Option.any_eq_true _ _).mp reached
  obtain ⟨started, unfinished, idle, tested⟩ := of_decide_eq_true same
  have run := reaches_of_execute executed
  obtain ⟨once, -, keeps⟩ := keepsTo_of_reaches 0 run
  have keepsTo := keeps 0 started
  exact ⟨s, trace, run, once, keepsTo, keepsTo.listed unfinished idle tested 0,
    keepsTo.listed unfinished idle tested 1⟩

/-- A session that has been suspended in its first resume is in no list before its worker has tested
whether it is done. -/
theorem not_listed_firstResume : ∃ s trace, Reaches system (start : State 1) s trace ∧
    Event.resumed 0 0 true ∈ trace ∧ (∀ first, Event.ended 0 first ∉ trace) ∧
    (∀ v first, s.worker v ≠ .running 0 first) ∧
    s.frames 0 = some ⟨.suspended, some 0⟩ ∧ ∀ v, 0 ∉ s.coroList v := by
  have reached : (execute system (start : State 1) (firstResume 0 ++ [.awaitIo 0])).any
      (fun reached => decide
        (Event.resumed 0 0 true ∈ reached.2 ∧ (∀ first, Event.ended 0 first ∉ reached.2) ∧
          (∀ v first, reached.1.worker v ≠ .running 0 first) ∧
          reached.1.frames 0 = some ⟨.suspended, some 0⟩ ∧
          ∀ v, 0 ∉ reached.1.coroList v)) = true := by
    decide +kernel
  obtain ⟨⟨s, trace⟩, executed, same⟩ := (Option.any_eq_true _ _).mp reached
  exact ⟨s, trace, reaches_of_execute executed, of_decide_eq_true same⟩

end Example

end Sessions

end Sheep
