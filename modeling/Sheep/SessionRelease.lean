/-
This file proves when the frame of a session is destroyed. Only the loop over the
coroutine list destroys frames, and only a session that is suspended when its first
resume returns comes into a list. So a session whose handler awaits an operation
before it ends is destroyed exactly once, and one that ends in its first resume is
forgotten: its frame, and the Connection the frame owns, stay forever. In no run a
frame is used after it has been destroyed.
-/

import Sheep.SessionRefinement

namespace Sheep

namespace Sessions

open Transitions

variable {n : Nat} {s : State n} {trace : List (Event n)} {session : Nat}

/-! ### What a trace tells of one session -/

theorem mem_aboutSession {event : Event n} (about : event.session = session) :
    event ∈ aboutSession session trace ↔ event ∈ trace := by
  unfold aboutSession
  rw [List.mem_filter, decide_eq_true about]
  exact and_iff_left rfl

theorem countP_aboutSession (test : Event n → Bool)
    (about : ∀ event, test event = true → event.session = session) :
    (aboutSession session trace).countP test = trace.countP test := by
  unfold aboutSession
  rw [List.countP_filter]
  congr 1
  funext event
  cases holds : test event with
  | true => rw [decide_eq_true (about event holds)]; rfl
  | false => rfl

theorem session_of_starts {event : Event n} (starts : event.starts session = true) :
    event.session = session := by
  cases event with
  | resumed worker other first =>
    cases first with
    | true => exact of_decide_eq_true starts
    | false => cases starts
  | _ => cases starts

theorem session_of_destroys {event : Event n} (destroys : event.destroys session = true) :
    event.session = session := by
  cases event with
  | destroyed worker other => exact of_decide_eq_true destroys
  | _ => cases destroys

/-- In every run a session has a life, the trace tells where it is, and the state shows it there. -/
theorem tells_of_run (session : Nat) (run : Reaches system (start : State n) s trace) :
    ∃ life : Life n, Tells session (aboutSession session trace) life ∧ Fits session s life := by
  obtain ⟨life, lifeRun, fits⟩ := life_of_reaches session run
  exact ⟨life, tells_of_reaches lifeRun, fits⟩

/-! ### Release -/

/-- A session is released as it should be: when it has come to its end and its worker is back at
the wait for the condition variable, it has been destroyed exactly once, and its frame is not used
after it has been destroyed. -/
structure Releases (session : Nat) (s : State n) (trace : List (Event n)) : Prop where
  released : ∀ worker first, Event.resumed worker session true ∈ trace →
    Event.ended session first ∈ trace → s.worker worker = .wait →
    trace.countP (Event.destroys session) = 1
  unused : ∀ worker, trace.Pairwise fun earlier later => earlier = .destroyed worker session →
    (∀ v first, later ≠ .resumed v session first) ∧ ∀ v, later ≠ .destroyed v session
  defined : Event.undefined session ∉ trace

/-- No event about a session follows its destruction. -/
theorem unused_of_tells {life : Life n} (tells : Tells session (aboutSession session trace) life)
    (worker : Fin n) :
    trace.Pairwise fun earlier later => earlier = .destroyed worker session →
      (∀ v first, later ≠ .resumed v session first) ∧ ∀ v, later ≠ .destroyed v session := by
  refine (List.pairwise_filter.mp tells.last).imp fun last destroyed => ?_
  refine ⟨fun v first same => ?_, fun v same => ?_⟩
  · exact last (by rw [destroyed]; exact decide_eq_true rfl)
      (by rw [same]; exact decide_eq_true rfl) worker destroyed
  · exact last (by rw [destroyed]; exact decide_eq_true rfl)
      (by rw [same]; exact decide_eq_true rfl) worker destroyed

/-- When its worker is at the wait, a session that has ended is destroyed or leaked. -/
theorem place_at_wait {life : Life n} {worker : Fin n} (fits : Fits session s life)
    (owner : life.owner = some worker) (isDone : life.isDone = true)
    (at_pc : s.worker worker = .wait) :
    life = .destroyed worker ∧ life.hasAwaited = true ∨
      life = .leaked worker ∧ life.hasAwaited = false := by
  have unlisted : (s.coroList worker).count session = 0 := fits.known_of at_pc
  have free : (s.worker worker).session ≠ some session := not_mine at_pc (empty_handed rfl)
  rcases place_of_isDone isDone with ⟨⟨v, rfl | rfl⟩, awaited⟩ | ⟨⟨v, rfl | rfl⟩, awaited⟩
  · cases owner
    have listed : (s.coroList worker).count session = 1 :=
      (fits.list worker).trans (congrArg Bool.toNat (decide_eq_true rfl))
    rw [listed] at unlisted
    cases unlisted
  · cases owner
    exact .inl ⟨rfl, awaited⟩
  · cases owner
    exact absurd rfl (fits.not_held rfl free _)
  · cases owner
    exact .inr ⟨rfl, awaited⟩

/-- In every state a run can reach, a session is released as it should be if and only if its handler
has awaited an operation before its end. -/
theorem releases_iff_awaited (session : Nat) (run : Reaches system (start : State n) s trace) :
    Releases session s trace ↔
      ∀ worker first, Event.resumed worker session true ∈ trace →
        Event.ended session first ∈ trace → s.worker worker = .wait →
        Event.awaited session ∈ trace := by
  obtain ⟨life, tells, fits⟩ := tells_of_run session run
  have destroyed : trace.countP (Event.destroys session) = life.isDestroyed.toNat := by
    rw [← tells.destroyed, countP_aboutSession _ fun _ => session_of_destroys]
  have awaited : Event.awaited session ∈ trace ↔ life.hasAwaited = true :=
    (mem_aboutSession rfl).symm.trans tells.awaited
  have place : ∀ worker first, Event.resumed worker session true ∈ trace →
      Event.ended session first ∈ trace → s.worker worker = .wait →
      life = .destroyed worker ∧ life.hasAwaited = true ∨
        life = .leaked worker ∧ life.hasAwaited = false := by
    intro worker first started ended at_pc
    exact place_at_wait fits
      (tells.owner worker true ((mem_aboutSession rfl).mpr started))
      (tells.isDone.mp ⟨first, (mem_aboutSession rfl).mpr ended⟩) at_pc
  constructor
  · intro releases worker first started ended at_pc
    rw [awaited]
    rcases place worker first started ended at_pc with ⟨-, has⟩ | ⟨leaked, -⟩
    · exact has
    · have once := releases.released worker first started ended at_pc
      rw [destroyed, leaked] at once
      cases once
  · intro awaits
    refine ⟨fun worker first started ended at_pc => ?_, unused_of_tells tells, fun member => ?_⟩
    · have has := awaited.mp (awaits worker first started ended at_pc)
      rcases place worker first started ended at_pc with ⟨gone, -⟩ | ⟨-, hasNot⟩
      · rw [destroyed, gone]
        rfl
      · rw [has] at hasNot
        cases hasNot
    · exact tells.defined ((mem_aboutSession rfl).mpr member)

section Example

/-- A worker takes a session and resumes it for the first time. -/
def firstResume (worker : Fin n) : List (Action n) :=
  [.submit true, .deliver 0, .work worker, .work worker, .tryPop worker (some 0), .work worker,
    .work worker]

/-- The session awaits an operation, and ends when it has been completed. -/
def endsAfterIo (worker : Fin n) : List (Action n) :=
  firstResume worker ++ [.awaitIo worker, .work worker, .tryPop worker none, .work worker,
    .complete worker 0, .work worker, .work worker, .finish worker, .work worker,
    .testCoro worker 0, .work worker, .tryPop worker none, .work worker, .work worker]

/-- The session ends at once. -/
def endsAtOnce (worker : Fin n) : List (Action n) :=
  firstResume worker ++ [.finish worker, .work worker, .tryPop worker none, .work worker,
    .work worker]

theorem releases_endsAfterIo : ∃ s trace, Reaches system (start : State 1) s trace ∧
    Event.resumed 0 0 true ∈ trace ∧ Event.ended 0 false ∈ trace ∧ s.worker 0 = .wait ∧
    Releases 0 s trace := by
  have reached : (execute system (start : State 1) (endsAfterIo 0)).any (fun reached => decide
      (Event.resumed 0 0 true ∈ reached.2 ∧ Event.ended 0 false ∈ reached.2 ∧
        reached.1.worker 0 = .wait ∧ Event.awaited 0 ∈ reached.2)) = true := by
    decide +kernel
  obtain ⟨⟨s, trace⟩, executed, same⟩ := (Option.any_eq_true _ _).mp reached
  obtain ⟨started, ended, at_pc, awaited⟩ := of_decide_eq_true same
  have run := reaches_of_execute executed
  exact ⟨s, trace, run, started, ended, at_pc,
    (releases_iff_awaited 0 run).mpr fun _ _ _ _ _ => awaited⟩

theorem not_releases_endsAtOnce : ∃ s trace, Reaches system (start : State 1) s trace ∧
    Event.resumed 0 0 true ∈ trace ∧ Event.ended 0 true ∈ trace ∧ s.worker 0 = .wait ∧
    s.frames 0 = some ⟨.final, some 0⟩ ∧ s.coroList 0 = [] ∧ ¬ Releases 0 s trace := by
  have reached : (execute system (start : State 1) (endsAtOnce 0)).any (fun reached => decide
      (Event.resumed 0 0 true ∈ reached.2 ∧ Event.ended 0 true ∈ reached.2 ∧
        reached.1.worker 0 = .wait ∧ reached.1.frames 0 = some ⟨.final, some 0⟩ ∧
        reached.1.coroList 0 = [] ∧ reached.2.countP (Event.destroys 0) = 0)) = true := by
    decide +kernel
  obtain ⟨⟨s, trace⟩, executed, same⟩ := (Option.any_eq_true _ _).mp reached
  obtain ⟨started, ended, at_pc, frame, unlisted, never⟩ := of_decide_eq_true same
  refine ⟨s, trace, reaches_of_execute executed, started, ended, at_pc, frame, unlisted,
    fun releases => ?_⟩
  have once := releases.released 0 true started ended at_pc
  rw [never] at once
  cases once

end Example

end Sessions

end Sheep
