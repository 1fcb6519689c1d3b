/-
This file connects the pool with the lives of its sessions. Every step of the pool is
at most one turn in the life of a session, with the events that are about it, and the
places of the session are those of its life. So every run of the pool is a life of each
of its sessions.
-/

import Mathlib.Data.List.Perm.Basic
import Sheep.SessionPlaces

namespace Sheep

namespace Sessions

open Transitions

variable {n : Nat} {session other : Nat} {s next : State n} {worker : Fin n} {life : Life n}
  {events : List (Event n)}

/-! ### The places of a life -/

/-- Where a session is in its life. -/
def Life.places (session : Nat) : Life n → Places n
  | .unborn => ⟨none, false, false, none, none, none⟩
  | .queued => ⟨some ⟨.initial, none⟩, true, true, none, none, none⟩
  | .taken worker =>
      ⟨some ⟨.initial, none⟩, true, false, none, none, some (worker, .popped (some session))⟩
  | .ready worker =>
      ⟨some ⟨.initial, some worker⟩, true, false, none, none, some (worker, .resume session)⟩
  | .running worker true =>
      ⟨some ⟨.running, some worker⟩, true, false, none, none, some (worker, .running session true)⟩
  | .running worker false =>
      ⟨some ⟨.running, some worker⟩, true, false, some worker, none,
        some (worker, .running session false)⟩
  | .returned worker =>
      ⟨some ⟨.suspended, some worker⟩, true, false, none, some worker,
        some (worker, .testDone session)⟩
  | .suspended worker =>
      ⟨some ⟨.suspended, some worker⟩, true, false, some worker, some worker, none⟩
  | .unlisted worker =>
      ⟨some ⟨.final, some worker⟩, true, false, none, none, some (worker, .testDone session)⟩
  | .leaked worker => ⟨some ⟨.final, some worker⟩, true, false, none, none, none⟩
  | .ended worker => ⟨some ⟨.final, some worker⟩, true, false, some worker, none, none⟩
  | .destroyed _ => ⟨none, true, false, none, none, none⟩

/-- The state shows the session at the places of its life. -/
def Fits (session : Nat) (s : State n) (life : Life n) : Prop :=
  Shows session s (life.places session)

theorem fits_start : Fits session (start : State n) .unborn where
  frame := rfl
  submitted := ⟨fun bound => absurd bound (Nat.not_lt_zero _), fun same => Bool.noConfusion same⟩
  queued := rfl
  list _ := rfl
  ring _ := rfl
  holder worker pc := by
    refine ⟨fun ⟨same, mine⟩ => ?_, fun same => by cases same⟩
    rw [← same] at mine
    cases mine
  known _ := rfl

theorem Fits.of_popped (fits : Fits session s life)
    (at_pc : s.worker worker = .popped (some session)) : life = .taken worker := by
  have held := fits.held at_pc rfl
  cases life with
  | running v first => cases first <;> cases held
  | _ => cases held <;> rfl

theorem Fits.of_resume (fits : Fits session s life) (at_pc : s.worker worker = .resume session) :
    life = .ready worker := by
  have held := fits.held at_pc rfl
  cases life with
  | running v first => cases first <;> cases held
  | _ => cases held <;> rfl

theorem Fits.of_running (fits : Fits session s life) {first : Bool}
    (at_pc : s.worker worker = .running session first) : life = .running worker first := by
  have held := fits.held at_pc rfl
  cases life with
  | running v other => cases other <;> cases held <;> rfl
  | _ => cases held

theorem Fits.of_testDone (fits : Fits session s life)
    (at_pc : s.worker worker = .testDone session) :
    life = .returned worker ∨ life = .unlisted worker := by
  have held := fits.held at_pc rfl
  cases life with
  | running v first => cases first <;> cases held
  | returned => cases held; exact .inl rfl
  | unlisted => cases held; exact .inr rfl
  | _ => cases held

/-- A worker that has not got the session in its hands is not its holder. -/
theorem Fits.not_held (fits : Fits session s life) {pc : WorkerPc} (at_pc : s.worker worker = pc)
    (free : pc.session ≠ some session) (old : WorkerPc) :
    (life.places session).holder ≠ some (worker, old) := by
  intro held
  obtain ⟨same, mine⟩ := (fits.holder worker old).mpr held
  rw [at_pc] at same
  exact free (same ▸ mine)

/-- A session in the ring of a worker that has not got it in its hands is suspended. -/
theorem Fits.of_ring (fits : Fits session s life)
    (waiting : (life.places session).ring = some worker) {pc : WorkerPc}
    (at_pc : s.worker worker = pc) (free : pc.session ≠ some session) :
    life = .suspended worker := by
  have absent := fits.not_held at_pc free
  cases life with
  | running v first => cases first <;> cases waiting
  | returned => cases waiting; exact absurd rfl (absent _)
  | suspended => cases waiting; rfl
  | _ => cases waiting

/-- A session in the list of a worker that has not got it in its hands is suspended or has ended. -/
theorem Fits.of_list (fits : Fits session s life)
    (listed : (life.places session).list = some worker) {pc : WorkerPc}
    (at_pc : s.worker worker = pc) (free : pc.session ≠ some session) :
    life = .suspended worker ∨ life = .ended worker := by
  have absent := fits.not_held at_pc free
  cases life with
  | running v first => cases first <;> cases listed; exact absurd rfl (absent _)
  | suspended => cases listed; exact .inl rfl
  | ended => cases listed; exact .inr rfl
  | _ => cases listed

theorem Fits.of_queued (fits : Fits session s life)
    (queued : 0 < (s.arriving ++ s.queue).count (some session)) : life = .queued := by
  rw [fits.queued] at queued
  cases life with
  | running v first => cases first <;> exact absurd queued (Nat.lt_irrefl 0)
  | queued => rfl
  | _ => exact absurd queued (Nat.lt_irrefl 0)

theorem Fits.of_unsubmitted (fits : Fits session s life) (new : ¬ session < s.submitted) :
    life = .unborn := by
  rw [fits.submitted] at new
  cases life with
  | running v first => cases first <;> exact absurd rfl new
  | unborn => rfl
  | _ => exact absurd rfl new

/-! ### What follows -/

/-- The events of a trace that are about a session. -/
def aboutSession (session : Nat) (trace : List (Event n)) : List (Event n) :=
  trace.filter fun event => event.session = session

/-- A step with these events is at most one turn in the life of the session. -/
def Follows (session : Nat) (life : Life n) (next : State n) (events : List (Event n)) : Prop :=
  aboutSession session events = [] ∧ Fits session next life ∨
    ∃ turn life', lifeOf session life turn = some (life', aboutSession session events) ∧
      Fits session next life'

theorem Follows.stays (fits : Fits session next life)
    (silent : aboutSession session events = []) : Follows session life next events :=
  .inl ⟨silent, fits⟩

theorem Follows.turns (turn : Turn n) {life' : Life n}
    (step : lifeOf session life turn = some (life', events))
    (mine : aboutSession session events = events) (fits : Fits session next life') :
    Follows session life next events :=
  .inr ⟨turn, life', mine.symm ▸ step, fits⟩

/-- What follows a step whose result has been computed. -/
theorem Follows.of_eq {result : State n × List (Event n)}
    (follows : Follows session life result.1 result.2) (step : some result = some (next, events)) :
    Follows session life next events := by
  cases Option.some.inj step
  exact follows

theorem silent_of_ne (event : Event n) (different : event.session ≠ session) :
    aboutSession session [event] = [] := by
  unfold aboutSession
  rw [List.filter_singleton, decide_eq_false different]
  rfl

theorem mine_of_eq (event : Event n) (same : event.session = session) :
    aboutSession session [event] = [event] := by
  unfold aboutSession
  rw [List.filter_singleton, decide_eq_true same]
  rfl

/-! ### The steps of a worker -/

theorem some_session_ne {a b : Nat} (different : a ≠ b) : (some a : Option Nat) ≠ some b :=
  fun same => different (Option.some.inj same)

theorem empty_handed {pc : WorkerPc} (free : pc.session = none) : pc.session ≠ some session := by
  rw [free]
  exact fun same => by cases same

theorem not_mine {pc : WorkerPc} (at_pc : s.worker worker = pc) (free : pc.session ≠ some session) :
    (s.worker worker).session ≠ some session :=
  at_pc ▸ free

/-- A worker without the session goes on without it. -/
theorem Fits.goes (fits : Fits session s life) {pc : WorkerPc}
    (before : (s.worker worker).session ≠ some session) (after : pc.session ≠ some session)
    (known : pc.Knows session ((s.coroList worker).count session)) :
    Follows session life (s.setWorker worker pc) [] :=
  .stays (Shows.setWorker_other fits before after known) rfl

/-- A worker goes on with empty hands. -/
theorem Fits.goesOn (fits : Fits session s life) {pc after : WorkerPc}
    (at_pc : s.worker worker = pc) (before : pc.session = none) (free : after.session = none)
    (known : after.Knows session ((s.coroList worker).count session)) :
    Follows session life (s.setWorker worker after) [] :=
  fits.goes (not_mine at_pc (empty_handed before)) (empty_handed free) known

/-- A worker resumes another session. -/
theorem Fits.resume_other (fits : Fits session s life) (different : other ≠ session)
    (before : (s.worker worker).session ≠ some session) (first : Bool) :
    Follows session life (s.resume worker other first).1 (s.resume worker other first).2 := by
  have resumed : ∀ ioService, Follows session life
      ((s.setFrame other (some ⟨.running, ioService⟩)).setWorker worker (.running other first))
      [.resumed worker other first] := by
    intro ioService
    refine .stays ?_ (silent_of_ne _ different)
    exact (Shows.setFrame_other fits different _).setWorker_other before
      (some_session_ne different) trivial
  have undefined : Follows session life s [.undefined other] :=
    .stays fits (silent_of_ne _ different)
  unfold State.resume
  split
  · exact resumed _
  · exact resumed _
  · exact undefined

/-- A worker resumes the session for the first time. -/
theorem Fits.resume_first (fits : Fits session s life) (at_pc : s.worker worker = .resume session) :
    Follows session life (s.resume worker session true).1 (s.resume worker session true).2 := by
  cases fits.of_resume at_pc
  have frame : s.frames session = some ⟨.initial, some worker⟩ := fits.frame
  unfold State.resume
  rw [frame]
  refine .turns .resume rfl (mine_of_eq _ rfl) ?_
  exact (fits.setFrame _).setWorker_hold rfl fun v old held => by cases held; rfl

/-- A worker reads the completion of another session and resumes it. -/
theorem Fits.complete_other (fits : Fits session s life) {rest : List Nat}
    (completed : s.completed worker = other :: rest) (different : other ≠ session)
    (before : (s.worker worker).session ≠ some session) :
    Follows session life ((s.setCompleted worker rest).resume worker other false).1
      ((s.setCompleted worker rest).resume worker other false).2 :=
  Fits.resume_other (Shows.setCompleted_other fits completed different) different before false

/-- A worker reads the completion of the session and resumes it. -/
theorem Fits.complete_self (fits : Fits session s life) {rest : List Nat}
    (completed : s.completed worker = session :: rest)
    (before : (s.worker worker).session ≠ some session) :
    Follows session life ((s.setCompleted worker rest).resume worker session false).1
      ((s.setCompleted worker rest).resume worker session false).2 := by
  have waiting : (life.places session).ring = some worker := by
    have count := fits.ring worker
    rw [completed, List.count_append, List.count_cons_self] at count
    by_contra absent
    rw [decide_eq_false absent] at count
    exact Nat.succ_ne_zero _ count
  cases fits.of_ring waiting rfl before
  have read := Shows.setCompleted_tail fits completed waiting
  have frame : (s.setCompleted worker rest).frames session = some ⟨.suspended, some worker⟩ :=
    fits.frame
  unfold State.resume
  rw [frame]
  refine .turns .resume rfl (mine_of_eq _ rfl) ?_
  exact (read.setFrame _).setWorker_hold rfl fun v old held => by cases held

/-- The handler of another session awaits an operation. -/
theorem Fits.awaitIo_other (fits : Fits session s life) (different : other ≠ session)
    (before : (s.worker worker).session ≠ some session) (first : Bool) :
    Follows session life (s.awaitIo worker other first).1 (s.awaitIo worker other first).2 := by
  unfold State.awaitIo
  split
  · refine .stays ?_ (silent_of_ne _ different)
    refine ((Shows.setFrame_other fits different _).setPending_other different).setWorker_other
      before ?_ ?_
    · cases first
      · exact empty_handed rfl
      · exact some_session_ne different
    · cases first <;> exact trivial
  · exact .stays fits (silent_of_ne _ different)

/-- The handler of the session awaits an operation. -/
theorem Fits.awaitIo_self (fits : Fits session s life) {first : Bool}
    (at_pc : s.worker worker = .running session first) :
    Follows session life (s.awaitIo worker session first).1 (s.awaitIo worker session first).2 := by
  cases fits.of_running at_pc
  cases first with
  | true =>
    have frame : s.frames session = some ⟨.running, some worker⟩ := fits.frame
    unfold State.awaitIo
    rw [frame]
    refine .turns .awaitIo rfl (mine_of_eq _ rfl) ?_
    exact ((fits.setFrame _).setPending_append rfl).setWorker_hold rfl
      fun v old held => by cases held; rfl
  | false =>
    have frame : s.frames session = some ⟨.running, some worker⟩ := fits.frame
    unfold State.awaitIo
    rw [frame]
    refine .turns .awaitIo rfl (mine_of_eq _ rfl) ?_
    exact ((fits.setFrame _).setPending_append rfl).setWorker_drop rfl
      (empty_handed rfl) trivial

/-- Another session comes to its end. -/
theorem Fits.finish_other (fits : Fits session s life) (different : other ≠ session)
    (before : (s.worker worker).session ≠ some session) (first : Bool) :
    Follows session life (s.finish worker other first).1 (s.finish worker other first).2 := by
  unfold State.finish
  split
  · refine .stays ?_ (silent_of_ne _ different)
    refine (Shows.setFrame_other fits different _).setWorker_other before ?_ ?_
    · cases first
      · exact empty_handed rfl
      · exact some_session_ne different
    · cases first <;> exact trivial
  · exact .stays fits (silent_of_ne _ different)

/-- The session comes to its end. -/
theorem Fits.finish_self (fits : Fits session s life) {first : Bool}
    (at_pc : s.worker worker = .running session first) :
    Follows session life (s.finish worker session first).1 (s.finish worker session first).2 := by
  cases fits.of_running at_pc
  cases first with
  | true =>
    have frame : s.frames session = some ⟨.running, some worker⟩ := fits.frame
    unfold State.finish
    rw [frame]
    refine .turns .finish rfl (mine_of_eq _ rfl) ?_
    exact (fits.setFrame _).setWorker_hold rfl fun v old held => by cases held; rfl
  | false =>
    have frame : s.frames session = some ⟨.running, some worker⟩ := fits.frame
    unfold State.finish
    rw [frame]
    refine .turns .finish rfl (mine_of_eq _ rfl) ?_
    exact (fits.setFrame _).setWorker_drop rfl (empty_handed rfl) trivial

/-- A worker tests whether another session is done after its first resume. -/
theorem Fits.testDone_other (fits : Fits session s life) (different : other ≠ session)
    (before : (s.worker worker).session ≠ some session) :
    Follows session life (s.testDone worker other).1 (s.testDone worker other).2 := by
  unfold State.testDone
  split
  · exact fits.goes before (empty_handed rfl) trivial
  · refine .stays ?_ rfl
    refine (Shows.setCoroList_other fits ?_).setWorker_other before (empty_handed rfl) trivial
    rw [List.insert]
    split
    · rfl
    · exact List.count_cons_of_ne different
  · exact .stays fits (silent_of_ne _ different)

/-- A worker tests whether the session is done after its first resume: it inserts the session into
its coroutine list, or it forgets it. -/
theorem Fits.testDone_self (fits : Fits session s life)
    (at_pc : s.worker worker = .testDone session) :
    Follows session life (s.testDone worker session).1 (s.testDone worker session).2 := by
  rcases fits.of_testDone at_pc with rfl | rfl
  · have frame : s.frames session = some ⟨.suspended, some worker⟩ := fits.frame
    unfold State.testDone
    rw [frame]
    refine .turns .testDone rfl rfl ?_
    exact (Shows.setCoroList_insert fits rfl (at_pc ▸ rfl)).setWorker_drop rfl
      (empty_handed rfl) trivial
  · have frame : s.frames session = some ⟨.final, some worker⟩ := fits.frame
    unfold State.testDone
    rw [frame]
    refine .turns .testDone rfl rfl ?_
    exact Shows.setWorker_drop fits rfl (empty_handed rfl) trivial

/-- A worker tests another session of its coroutine list. -/
theorem Fits.testCoro_other (fits : Fits session s life) {rest : List Nat} {place : Nat}
    (at_pc : s.worker worker = .testCoros rest) (different : other ≠ session) :
    Follows session life (s.testCoro worker other (rest.eraseIdx place)).1
      (s.testCoro worker other (rest.eraseIdx place)).2 := by
  have before : (s.worker worker).session ≠ some session := not_mine at_pc (empty_handed rfl)
  have fewer : (rest.eraseIdx place).count session ≤ (s.coroList worker).count session :=
    Nat.le_trans ((List.eraseIdx_sublist rest place).count_le session) (fits.known_of at_pc)
  unfold State.testCoro
  split
  · have kept : ((s.coroList worker).erase other).count session =
        (s.coroList worker).count session := List.count_erase_of_ne different.symm
    refine .stays ?_ (silent_of_ne _ different)
    have erased : Shows session ((s.setFrame other none).setCoroList worker _) _ :=
      (Shows.setFrame_other fits different none).setCoroList_other kept
    refine erased.setWorker_other before (empty_handed rfl) ?_
    show _ ≤ (Function.update s.coroList worker _ worker).count session
    rw [Function.update_self, kept]
    exact fewer
  · exact fits.goes before (empty_handed rfl) fewer
  · exact .stays fits (silent_of_ne _ different)

/-- A worker tests the session of its coroutine list, and destroys it if it is done. -/
theorem Fits.testCoro_self (fits : Fits session s life) {rest : List Nat} {place : Nat}
    (at_pc : s.worker worker = .testCoros rest) (found : rest[place]? = some session) :
    Follows session life (s.testCoro worker session (rest.eraseIdx place)).1
      (s.testCoro worker session (rest.eraseIdx place)).2 := by
  have before : (s.worker worker).session ≠ some session := not_mine at_pc (empty_handed rfl)
  have tested : rest.count session ≤ (s.coroList worker).count session := fits.known_of at_pc
  have split : rest.count session = (rest.eraseIdx place).count session + 1 := by
    obtain ⟨within, rfl⟩ := List.getElem?_eq_some_iff.mp found
    rw [← (List.getElem_cons_eraseIdx_perm within).count_eq, List.count_cons_self]
  have listed : (life.places session).list = some worker := by
    by_contra absent
    rw [fits.list, decide_eq_false absent, split] at tested
    exact Nat.not_succ_le_zero _ tested
  rw [fits.list, listed, decide_eq_true rfl, split] at tested
  have gone : (rest.eraseIdx place).count session = 0 :=
    Nat.le_zero.mp (Nat.le_of_succ_le_succ tested)
  have goes : Fits session (s.setWorker worker (.testCoros (rest.eraseIdx place))) life := by
    refine Shows.setWorker_other fits before (empty_handed rfl) ?_
    show _ ≤ (s.coroList worker).count session
    rw [gone]
    exact Nat.zero_le _
  rcases fits.of_list listed rfl before with rfl | rfl
  · have frame : s.frames session = some ⟨.suspended, some worker⟩ := fits.frame
    unfold State.testCoro
    rw [frame]
    exact .stays goes rfl
  · have frame : s.frames session = some ⟨.final, some worker⟩ := fits.frame
    unfold State.testCoro
    rw [frame]
    refine .turns .destroy rfl (mine_of_eq _ rfl) ?_
    -- the worker goes on before the session leaves the list
    show Shows session (((s.setWorker worker (.testCoros (rest.eraseIdx place))).setFrame session
      none).setCoroList worker ((s.coroList worker).erase session)) _
    refine (Shows.setFrame goes none).setCoroList_erase rfl ?_
    show (Function.update s.worker worker _ worker).Knows session 0
    rw [Function.update_self]
    exact Nat.le_of_eq gone

/-- A worker sets the io_service of another session. -/
theorem Fits.setIoService_other (fits : Fits session s life) (different : other ≠ session)
    (before : (s.worker worker).session ≠ some session) (frame : Option (Frame n)) :
    Follows session life ((s.setFrame other frame).setWorker worker (.resume other)) [] :=
  .stays ((Shows.setFrame_other fits different frame).setWorker_other before
    (some_session_ne different) trivial) rfl

/-- A worker sets the io_service of the session. -/
theorem Fits.setIoService_self (fits : Fits session s life)
    (at_pc : s.worker worker = .popped (some session)) :
    s.frames session = some ⟨.initial, none⟩ ∧
      Follows session life ((s.setFrame session (some ⟨.initial, some worker⟩)).setWorker worker
        (.resume session)) [] := by
  cases fits.of_popped at_pc
  refine ⟨fits.frame, .turns .setIoService rfl rfl ?_⟩
  exact (fits.setFrame _).setWorker_hold rfl fun v old held => by cases held; rfl

/-! ### The steps of the queue and of the rings -/

theorem Fits.submit (fits : Fits session s life) (hasCoro : Bool) :
    Follows session life (s.submit hasCoro).1 (s.submit hasCoro).2 := by
  have more : ∀ entry, (s.arriving ++ [entry] ++ s.queue).count (some session) =
      (s.arriving ++ s.queue).count (some session) + [entry].count (some session) := by
    intro entry
    rw [List.count_append, List.count_append, List.count_append, Nat.add_right_comm]
  cases hasCoro with
  | false => exact .stays (Shows.setQueue_other fits (more none)) rfl
  | true =>
    by_cases same : s.submitted = session
    · subst same
      cases fits.of_unsubmitted (Nat.lt_irrefl _)
      refine .turns .submit rfl (mine_of_eq _ rfl) ?_
      refine ((fits.setFrame (some ⟨.initial, none⟩)).submitted_self rfl).setQueue true
        ((more (some s.submitted)).trans ?_)
      rw [fits.queued, List.count_singleton_self]
      rfl
    · refine .stays ?_ (silent_of_ne _ same)
      refine ((Shows.setFrame_other fits same _).submitted_other same).setQueue_other
        ((more (some s.submitted)).trans ?_)
      rw [List.count_singleton, beq_false_of_ne (some_session_ne same)]
      rfl

/-- An entry of the queue has been written. -/
theorem Fits.deliver (fits : Fits session s life) {place : Nat} {entry : Option Nat}
    (found : s.arriving[place]? = some entry) :
    Follows session life
      { s with arriving := s.arriving.eraseIdx place, queue := s.queue ++ [entry] } [] :=
  .stays (Shows.setQueue_other fits (count_moved found s.queue _)) rfl

/-- A worker takes an entry out of the queue. -/
theorem Fits.tryPop (fits : Fits session s life) {place : Nat} {entry : Option Nat}
    (at_pc : s.worker worker = .tryPop) (found : s.queue[place]? = some entry) :
    Follows session life
      ({ s with queue := s.queue.eraseIdx place }.setWorker worker (.popped entry)) [] := by
  have before : (s.worker worker).session ≠ some session := not_mine at_pc (empty_handed rfl)
  have split : (s.arriving ++ s.queue).count (some session) =
      (s.arriving ++ s.queue.eraseIdx place).count (some session) +
        [entry].count (some session) := by
    rw [List.count_append, List.count_append, Nat.add_assoc, ← count_eraseIdx found]
  by_cases same : entry = some session
  · subst same
    rw [List.count_singleton_self] at split
    have queued := fits.of_queued (split ▸ Nat.succ_pos _)
    subst queued
    have rest : (s.arriving ++ s.queue.eraseIdx place).count (some session) = 0 :=
      Nat.succ.inj (split.symm.trans fits.queued)
    refine .turns (.take worker) rfl rfl ?_
    exact (Shows.setQueue fits false rest).setWorker_hold rfl fun v old held => by cases held
  · rw [List.count_singleton, beq_false_of_ne same] at split
    refine .stays ?_ rfl
    exact (Shows.setQueue_other fits split.symm).setWorker_other before same trivial

/-- The kernel completes an operation. -/
theorem Fits.complete (fits : Fits session s life) {place : Nat} {found : Nat}
    (inRing : (s.pending worker)[place]? = some found) :
    Follows session life ((s.setPending worker ((s.pending worker).eraseIdx place)).setCompleted
      worker (s.completed worker ++ [found])) [] :=
  .stays (Shows.setRing_other fits (count_moved inRing (s.completed worker) session)) rfl

/-! ### Every step -/

/-- What a worker does by itself is at most one turn in the life of the session. -/
theorem Fits.work (fits : Fits session s life) (step : s.work worker = some (next, events)) :
    Follows session life next events := by
  unfold State.work at step
  cases at_pc : s.worker worker with
  | testStop =>
    rw [at_pc] at step
    cases step
    have unlisted : (s.coroList worker).count session = 0 := fits.known_of at_pc
    by_cases stopped : s.stopRequested worker = true
    · rw [if_pos stopped]
      exact fits.goesOn at_pc rfl rfl unlisted
    · rw [if_neg stopped]
      exact fits.goesOn at_pc rfl rfl unlisted
  | wait =>
    simp only [at_pc] at step
    split at step
    · cases step
      exact fits.goesOn at_pc rfl rfl trivial
    · cases step
  | tryPop =>
    rw [at_pc] at step
    cases step
  | popped found =>
    cases found with
    | none =>
      rw [at_pc] at step
      cases step
      exact fits.goesOn at_pc rfl rfl trivial
    | some other =>
      simp only [at_pc] at step
      by_cases same : other = session
      · subst same
        obtain ⟨frame, follows⟩ := fits.setIoService_self at_pc
        rw [frame] at step
        cases step
        exact follows
      · have before := not_mine at_pc (some_session_ne same)
        split at step
        · cases step
          exact fits.setIoService_other same before _
        · cases step
          exact .stays fits (silent_of_ne _ same)
  | resume other =>
    rw [at_pc] at step
    refine .of_eq ?_ step
    by_cases same : other = session
    · subst same
      exact fits.resume_first at_pc
    · exact fits.resume_other same (not_mine at_pc (some_session_ne same)) true
  | running other first =>
    rw [at_pc] at step
    cases step
  | testDone other =>
    rw [at_pc] at step
    refine .of_eq ?_ step
    by_cases same : other = session
    · subst same
      exact fits.testDone_self at_pc
    · exact fits.testDone_other same (not_mine at_pc (some_session_ne same))
  | testList =>
    rw [at_pc] at step
    cases step
    by_cases empty : s.coroList worker = []
    · rw [if_pos empty]
      exact fits.goesOn at_pc rfl rfl (List.count_eq_zero.mpr (by simp [empty]))
    · rw [if_neg empty]
      exact fits.goesOn at_pc rfl rfl trivial
  | waitIo =>
    simp only [at_pc] at step
    split at step
    · cases step
    · cases step
      exact fits.goesOn at_pc rfl rfl trivial
  | loop =>
    have before : (s.worker worker).session ≠ some session := not_mine at_pc (empty_handed rfl)
    simp only [at_pc] at step
    split at step
    · rename_i other rest completed
      refine .of_eq ?_ step
      by_cases same : other = session
      · subst same
        exact fits.complete_self completed before
      · exact fits.complete_other completed same before
    · cases step
      exact fits.goesOn at_pc rfl rfl (Nat.le_refl (List.count _ _))
  | testCoros rest =>
    cases rest with
    | nil =>
      rw [at_pc] at step
      cases step
      exact fits.goesOn at_pc rfl rfl trivial
    | cons _ _ =>
      rw [at_pc] at step
      cases step
  | finished =>
    rw [at_pc] at step
    cases step

/-- A step of the pool is at most one turn in the life of every session. -/
theorem follows_of_step {action : Action n} (fits : Fits session s life)
    (step : system s action = some (next, events)) : Follows session life next events := by
  cases action with
  | submit hasCoro => exact (fits.submit hasCoro).of_eq step
  | deliver place =>
    obtain ⟨entry, found, same⟩ := Option.map_eq_some_iff.mp step
    cases same
    exact fits.deliver found
  | work worker => exact fits.work step
  | tryPop worker place =>
    cases place with
    | none =>
      simp only [system] at step
      split at step
      · rename_i at_pc
        cases step
        exact fits.goesOn at_pc rfl rfl trivial
      · cases step
    | some place =>
      simp only [system] at step
      split at step
      · rename_i at_pc
        obtain ⟨entry, found, same⟩ := Option.map_eq_some_iff.mp step
        cases same
        exact fits.tryPop at_pc found
      · cases step
  | awaitIo worker =>
    simp only [system] at step
    split at step
    · rename_i other first at_pc
      refine .of_eq ?_ step
      by_cases same : other = session
      · subst same
        exact fits.awaitIo_self at_pc
      · exact fits.awaitIo_other same (not_mine at_pc (some_session_ne same)) first
    · cases step
  | finish worker =>
    simp only [system] at step
    split at step
    · rename_i other first at_pc
      refine .of_eq ?_ step
      by_cases same : other = session
      · subst same
        exact fits.finish_self at_pc
      · exact fits.finish_other same (not_mine at_pc (some_session_ne same)) first
    · cases step
  | complete worker place =>
    obtain ⟨found, inRing, same⟩ := Option.map_eq_some_iff.mp step
    cases same
    exact fits.complete inRing
  | testCoro worker place =>
    simp only [system] at step
    split at step
    · rename_i rest at_pc
      obtain ⟨other, found, tested⟩ := Option.map_eq_some_iff.mp step
      refine .of_eq ?_ (congrArg some tested)
      by_cases same : other = session
      · subst same
        exact fits.testCoro_self at_pc found
      · exact fits.testCoro_other at_pc same
    · cases step
  | requestStop =>
    cases step
    exact .stays ⟨fits.frame, fits.submitted, fits.queued, fits.list, fits.ring, fits.holder,
      fits.known⟩ rfl
  | stopThread worker =>
    cases step
    exact .stays ⟨fits.frame, fits.submitted, fits.queued, fits.list, fits.ring, fits.holder,
      fits.known⟩ rfl

/-! ### Every run -/

/-- In every run each session leads its life, and the state shows it at its places. -/
theorem life_of_reaches {trace : List (Event n)} (session : Nat)
    (run : Reaches system (start : State n) s trace) :
    ∃ life : Life n, Reaches (lifeOf session) .unborn life (aboutSession session trace) ∧
      Fits session s life := by
  have follows : ∀ (state : State n) (life : Life n) (action : Action n) (next : State n)
      (events : List (Event n)), Fits session state life →
      system state action = some (next, events) → ∃ (life' : Life n) (told : List (Event n)),
        Reaches (lifeOf session) life life' told ∧ aboutSession session events = told ∧
          Fits session next life' := by
    intro state life action next events fits step
    rcases follows_of_step fits step with ⟨silent, fits⟩ | ⟨turn, life', turned, fits⟩
    · exact ⟨life, [], .start, silent, fits⟩
    · exact ⟨life', _, (Reaches.start).next turned, rfl, fits⟩
  obtain ⟨life, told, lifeRun, same, fits⟩ := run.simulates (Fits session)
    (fun trace told => aboutSession session trace = told) rfl
    (fun _ _ _ _ first second => by
      rw [← first, ← second]
      exact List.filter_append _ _)
    fits_start follows
  exact ⟨life, same ▸ lifeRun, fits⟩

end Sessions

end Sheep
