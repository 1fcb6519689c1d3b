/-
This file proves that the pool lets every session lead its life. The places of a
session are its frame, the queue, the coroutine lists, the rings and the hands of a
worker. An assignment to the state moves a session from one place to another, or it
leaves the session where it is: there is one rule for each, and every step of the pool
is a few assignments. So a step of the pool is one turn of the life of one session, and
the places of all other sessions stay as they are.
-/

import Mathlib.Data.List.Perm.Basic
import Sheep.SessionLife

namespace Sheep

namespace Sessions

open Transitions

/-! ### Places -/

/-- The session a worker has in its hands. -/
def WorkerPc.session : WorkerPc → Option Nat
  | .popped session => session
  | .resume session | .running session _ | .testDone session => some session
  | .testStop | .wait | .tryPop | .testList | .waitIo | .loop | .testCoros _ | .finished => none

/-- What a worker knows of how often a session is in its coroutine list: it has it in the list while
it goes to test it, and it has no session outside the loop over the list. -/
def WorkerPc.Knows (session count : Nat) : WorkerPc → Prop
  | .testCoros rest => rest.count session ≤ count
  | .testStop | .wait | .finished => count = 0
  | .tryPop | .popped _ | .resume _ | .running _ _ | .testDone _ | .testList | .waitIo | .loop =>
      True

/-- The places of a session: its frame, whether it has been submitted and is in the queue, whose
coroutine list and whose ring it is in, and the worker that has it in its hands. -/
structure Places (n : Nat) where
  frame : Option (Frame n)
  submitted : Bool
  queued : Bool
  list : Option (Fin n)
  ring : Option (Fin n)
  holder : Option (Fin n × WorkerPc)

/-- In a state the session is at these places and at no others. -/
structure Shows (session : Nat) (s : State n) (places : Places n) : Prop where
  frame : s.frames session = places.frame
  submitted : session < s.submitted ↔ places.submitted = true
  queued : (s.arriving ++ s.queue).count (some session) = places.queued.toNat
  list : ∀ worker,
    (s.coroList worker).count session = (decide (places.list = some worker)).toNat
  ring : ∀ worker, (s.pending worker ++ s.completed worker).count session =
    (decide (places.ring = some worker)).toNat
  holder : ∀ worker pc,
    s.worker worker = pc ∧ pc.session = some session ↔ places.holder = some (worker, pc)
  known : ∀ worker, (s.worker worker).Knows session ((s.coroList worker).count session)

variable {n : Nat} {session other : Nat} {s : State n} {worker : Fin n} {places : Places n}

/-- A worker that has a session in its hands is in the loop over the list. -/
theorem knows_of_session {pc : WorkerPc} (mine : pc.session = some session) (count : Nat) :
    pc.Knows session count := by
  cases pc with
  | testCoros | testStop | wait | finished => cases mine
  | _ => exact trivial

theorem Shows.known_of (shows : Shows session s places) {pc : WorkerPc}
    (at_pc : s.worker worker = pc) : pc.Knows session ((s.coroList worker).count session) :=
  at_pc ▸ shows.known worker

/-- A worker that goes on knows of the list what its new place says, and the others what they
knew. -/
theorem Shows.known_update (shows : Shows session s places) {pc : WorkerPc}
    (known : pc.Knows session ((s.coroList worker).count session)) (v : Fin n) :
    (Function.update s.worker worker pc v).Knows session ((s.coroList v).count session) := by
  by_cases same : v = worker
  · subst same
    rw [Function.update_self]
    exact known
  · rw [Function.update_of_ne same]
    exact shows.known v

theorem Shows.held (shows : Shows session s places) {pc : WorkerPc} (at_pc : s.worker worker = pc)
    (mine : pc.session = some session) : places.holder = some (worker, pc) :=
  (shows.holder worker pc).mp ⟨at_pc, mine⟩

/-! ### Assignments -/

theorem Shows.setFrame (shows : Shows session s places) (frame : Option (Frame n)) :
    Shows session (s.setFrame session frame) { places with frame := frame } where
  frame := Function.update_self _ _ _
  submitted := shows.submitted
  queued := shows.queued
  list := shows.list
  ring := shows.ring
  holder := shows.holder
  known := shows.known

theorem Shows.setFrame_other (shows : Shows session s places) (different : other ≠ session)
    (frame : Option (Frame n)) : Shows session (s.setFrame other frame) places where
  frame := (Function.update_of_ne different.symm _ _).trans shows.frame
  submitted := shows.submitted
  queued := shows.queued
  list := shows.list
  ring := shows.ring
  holder := shows.holder
  known := shows.known

/-- A worker goes on, and the session is not in its hands. -/
theorem Shows.setWorker_other (shows : Shows session s places) {pc : WorkerPc}
    (before : (s.worker worker).session ≠ some session) (after : pc.session ≠ some session)
    (known : pc.Knows session ((s.coroList worker).count session)) :
    Shows session (s.setWorker worker pc) places where
  frame := shows.frame
  submitted := shows.submitted
  queued := shows.queued
  list := shows.list
  ring := shows.ring
  holder v pc' := by
    rw [← shows.holder v pc']
    show Function.update s.worker worker pc v = pc' ∧ _ ↔ _
    by_cases same : v = worker
    · subst same
      rw [Function.update_self]
      constructor
      · rintro ⟨rfl, mine⟩
        exact absurd mine after
      · rintro ⟨rfl, mine⟩
        exact absurd mine before
    · rw [Function.update_of_ne same]
  known := shows.known_update known

/-- A worker has the session in its hands, which no other worker has. -/
theorem Shows.setWorker_hold (shows : Shows session s places) {pc : WorkerPc}
    (mine : pc.session = some session)
    (free : ∀ v old, places.holder = some (v, old) → v = worker) :
    Shows session (s.setWorker worker pc) { places with holder := some (worker, pc) } where
  frame := shows.frame
  submitted := shows.submitted
  queued := shows.queued
  list := shows.list
  ring := shows.ring
  holder v pc' := by
    show Function.update s.worker worker pc v = pc' ∧ _ ↔ some (worker, pc) = some (v, pc')
    by_cases same : v = worker
    · subst same
      rw [Function.update_self]
      constructor
      · rintro ⟨rfl, -⟩
        rfl
      · intro equal
        cases equal
        exact ⟨rfl, mine⟩
    · rw [Function.update_of_ne same, shows.holder]
      constructor
      · intro held
        exact absurd (free _ _ held) same
      · intro equal
        cases equal
        exact absurd rfl same
  known := shows.known_update (knows_of_session mine _)

/-- The worker that has the session in its hands drops it. -/
theorem Shows.setWorker_drop (shows : Shows session s places) {pc old : WorkerPc}
    (held : places.holder = some (worker, old)) (after : pc.session ≠ some session)
    (known : pc.Knows session ((s.coroList worker).count session)) :
    Shows session (s.setWorker worker pc) { places with holder := none } where
  frame := shows.frame
  submitted := shows.submitted
  queued := shows.queued
  list := shows.list
  ring := shows.ring
  holder v pc' := by
    show Function.update s.worker worker pc v = pc' ∧ _ ↔ none = some (v, pc')
    refine ⟨fun ⟨at_pc, mine⟩ => ?_, fun equal => by cases equal⟩
    by_cases same : v = worker
    · subst same
      rw [Function.update_self] at at_pc
      exact absurd (at_pc ▸ mine) after
    · rw [Function.update_of_ne same] at at_pc
      have elsewhere := shows.held at_pc mine
      rw [held] at elsewhere
      cases elsewhere
      exact absurd rfl same
  known := shows.known_update known

/-- A coroutine list changes. -/
theorem Shows.setCoroList (shows : Shows session s places) {sessions : List Nat}
    (list : Option (Fin n)) (here : sessions.count session = (decide (list = some worker)).toNat)
    (elsewhere : ∀ v, v ≠ worker → (list = some v ↔ places.list = some v))
    (known : (s.worker worker).Knows session (sessions.count session)) :
    Shows session (s.setCoroList worker sessions) { places with list := list } where
  frame := shows.frame
  submitted := shows.submitted
  queued := shows.queued
  list v := by
    show (Function.update s.coroList worker sessions v).count session = _
    by_cases same : v = worker
    · subst same
      rw [Function.update_self, here]
    · rw [Function.update_of_ne same, shows.list, decide_eq_decide.mpr (elsewhere v same)]
  ring := shows.ring
  holder := shows.holder
  known v := by
    show (s.worker v).Knows session ((Function.update s.coroList worker sessions v).count session)
    by_cases same : v = worker
    · subst same
      rw [Function.update_self]
      exact known
    · rw [Function.update_of_ne same]
      exact shows.known v

/-- The coroutine list changes in other sessions. -/
theorem Shows.setCoroList_other (shows : Shows session s places) {sessions : List Nat}
    (same : sessions.count session = (s.coroList worker).count session) :
    Shows session (s.setCoroList worker sessions) places :=
  shows.setCoroList places.list (same.trans (shows.list worker)) (fun _ _ => Iff.rfl)
    (same.symm ▸ shows.known worker)

/-- The session comes into the coroutine list of the worker that has it in its hands. -/
theorem Shows.setCoroList_insert (shows : Shows session s places) (unlisted : places.list = none)
    (mine : (s.worker worker).session = some session) :
    Shows session (s.setCoroList worker ((s.coroList worker).insert session))
      { places with list := some worker } := by
  have absent : (s.coroList worker).count session = 0 := by
    rw [shows.list, unlisted]
    rfl
  rw [List.insert_of_not_mem (List.count_eq_zero.mp absent)]
  refine shows.setCoroList (some worker) ?_ ?_ ?_
  · rw [List.count_cons_self, absent, decide_eq_true rfl]
    rfl
  · intro v different
    rw [unlisted]
    exact ⟨fun same => absurd (Option.some.inj same).symm different, fun same => by cases same⟩
  · exact knows_of_session mine _

/-- The session leaves the coroutine list of a worker, which does not test it again. -/
theorem Shows.setCoroList_erase (shows : Shows session s places)
    (listed : places.list = some worker)
    (known : (s.worker worker).Knows session 0) :
    Shows session (s.setCoroList worker ((s.coroList worker).erase session))
      { places with list := none } := by
  have gone : ((s.coroList worker).erase session).count session = 0 := by
    rw [List.count_erase_self, shows.list, listed, decide_eq_true rfl]
    rfl
  refine shows.setCoroList none gone ?_ (gone.symm ▸ known)
  intro v different
  rw [listed]
  exact ⟨fun same => (by cases same), fun same => absurd (Option.some.inj same).symm different⟩

/-- The entries of a ring change. -/
theorem Shows.setRing (shows : Shows session s places) {pending completed : List Nat}
    (ring : Option (Fin n))
    (here : (pending ++ completed).count session = (decide (ring = some worker)).toNat)
    (elsewhere : ∀ v, v ≠ worker → (ring = some v ↔ places.ring = some v)) :
    Shows session ((s.setPending worker pending).setCompleted worker completed)
      { places with ring := ring } where
  frame := shows.frame
  submitted := shows.submitted
  queued := shows.queued
  list := shows.list
  ring v := by
    show (Function.update s.pending worker pending v ++
      Function.update s.completed worker completed v).count session = _
    by_cases same : v = worker
    · subst same
      rw [Function.update_self, Function.update_self, here]
    · rw [Function.update_of_ne same, Function.update_of_ne same, shows.ring,
        decide_eq_decide.mpr (elsewhere v same)]
  holder := shows.holder
  known := shows.known

theorem Shows.setRing_other (shows : Shows session s places) {pending completed : List Nat}
    (same : (pending ++ completed).count session =
      (s.pending worker ++ s.completed worker).count session) :
    Shows session ((s.setPending worker pending).setCompleted worker completed) places :=
  shows.setRing places.ring (same.trans (shows.ring worker)) fun _ _ => Iff.rfl

theorem setCompleted_completed (s : State n) (worker : Fin n) :
    s.setCompleted worker (s.completed worker) = s := by
  unfold State.setCompleted
  rw [Function.update_eq_self]

theorem setPending_pending (s : State n) (worker : Fin n) :
    s.setPending worker (s.pending worker) = s := by
  unfold State.setPending
  rw [Function.update_eq_self]

/-- Another session awaits an operation. -/
theorem Shows.setPending_other (shows : Shows session s places) (different : other ≠ session) :
    Shows session (s.setPending worker (s.pending worker ++ [other])) places := by
  rw [← setCompleted_completed (s.setPending worker _) worker]
  refine shows.setRing_other ?_
  show (s.pending worker ++ [other] ++ s.completed worker).count session = _
  rw [List.count_append, List.count_append, List.count_append,
    List.count_singleton, beq_false_of_ne different]
  rfl

/-- The session awaits an operation. -/
theorem Shows.setPending_append (shows : Shows session s places) (idle : places.ring = none) :
    Shows session (s.setPending worker (s.pending worker ++ [session]))
      { places with ring := some worker } := by
  have absent := shows.ring worker
  rw [idle, List.count_append] at absent
  rw [← setCompleted_completed (s.setPending worker _) worker]
  refine shows.setRing (some worker) ?_ ?_
  · show (s.pending worker ++ [session] ++ s.completed worker).count session = _
    rw [List.count_append, List.count_append, List.count_singleton_self, Nat.add_right_comm, absent,
      decide_eq_true rfl]
    rfl
  · intro v different
    rw [idle]
    exact ⟨fun same => absurd (Option.some.inj same).symm different, fun same => by cases same⟩

/-- The completion of another session is read. -/
theorem Shows.setCompleted_other (shows : Shows session s places) {rest : List Nat}
    (completed : s.completed worker = other :: rest) (different : other ≠ session) :
    Shows session (s.setCompleted worker rest) places := by
  rw [← setPending_pending s worker]
  refine shows.setRing_other ?_
  rw [completed, List.count_append, List.count_append, List.count_cons_of_ne different]

/-- The completion of the session is read. -/
theorem Shows.setCompleted_tail (shows : Shows session s places) {rest : List Nat}
    (completed : s.completed worker = session :: rest) (waiting : places.ring = some worker) :
    Shows session (s.setCompleted worker rest) { places with ring := none } := by
  have once := shows.ring worker
  rw [waiting, completed, List.count_append, List.count_cons_self, decide_eq_true rfl] at once
  rw [← setPending_pending s worker]
  refine shows.setRing none ?_ ?_
  · rw [List.count_append]
    exact Nat.succ.inj once
  · intro v different
    rw [waiting]
    exact ⟨fun same => (by cases same), fun same => absurd (Option.some.inj same).symm different⟩

/-- Taking an entry out of a list. -/
theorem count_eraseIdx {Entry : Type} [BEq Entry] [LawfulBEq Entry] {list : List Entry}
    {place : Nat} {found : Entry} (at_place : list[place]? = some found) (entry : Entry) :
    list.count entry = (list.eraseIdx place).count entry + [found].count entry := by
  obtain ⟨within, rfl⟩ := List.getElem?_eq_some_iff.mp at_place
  rw [← List.count_append, ((List.perm_append_singleton _ _).trans
    (List.getElem_cons_eraseIdx_perm within)).count_eq]

/-- Moving an entry from a list to the end of the next. -/
theorem count_moved {Entry : Type} [BEq Entry] [LawfulBEq Entry] {first : List Entry} {place : Nat}
    {found : Entry} (at_place : first[place]? = some found) (second : List Entry)
    (entry : Entry) : (first.eraseIdx place ++ (second ++ [found])).count entry =
      (first ++ second).count entry := by
  have taken := count_eraseIdx at_place entry
  simp only [List.count_append]
  omega

/-- The queue changes. -/
theorem Shows.setQueue (shows : Shows session s places) {arriving queue : List (Option Nat)}
    (queued : Bool) (here : (arriving ++ queue).count (some session) = queued.toNat) :
    Shows session { s with arriving := arriving, queue := queue }
      { places with queued := queued } where
  frame := shows.frame
  submitted := shows.submitted
  queued := here
  list := shows.list
  ring := shows.ring
  holder := shows.holder
  known := shows.known

theorem Shows.setQueue_other (shows : Shows session s places) {arriving queue : List (Option Nat)}
    (same : (arriving ++ queue).count (some session) =
      (s.arriving ++ s.queue).count (some session)) :
    Shows session { s with arriving := arriving, queue := queue } places :=
  shows.setQueue places.queued (same.trans shows.queued)

/-- Another session is submitted. -/
theorem Shows.submitted_other (shows : Shows session s places) (different : s.submitted ≠ session) :
    Shows session { s with submitted := s.submitted + 1 } places where
  frame := shows.frame
  submitted := by
    rw [← shows.submitted]
    show session < s.submitted + 1 ↔ _
    omega
  queued := shows.queued
  list := shows.list
  ring := shows.ring
  holder := shows.holder
  known := shows.known

/-- The session is submitted. -/
theorem Shows.submitted_self (shows : Shows session s places) (same : s.submitted = session) :
    Shows session { s with submitted := s.submitted + 1 }
      { places with submitted := true } where
  frame := shows.frame
  submitted := ⟨fun _ => rfl, fun _ => same ▸ Nat.lt_succ_self _⟩
  queued := shows.queued
  list := shows.list
  ring := shows.ring
  holder := shows.holder
  known := shows.known

end Sessions

end Sheep
