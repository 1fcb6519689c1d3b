/-
This file asks when a session waits in the queue behind the operations of others. A
worker with a suspended session waits for completions, and `submit` wakes only
workers that wait for the condition variable. There are two ways into a state in
which nobody looks at the queue: a session comes to it while all workers wait for
completions, or the last worker begins to wait for one while a session is there.
-/

import Sheep.SessionAffinity

namespace Sheep

open Transitions

namespace Sessions

variable {n : Nat} {s next : State n} {worker : Fin n} {events trace : List (Event n)}

/-! ### Stranded sessions -/

/-- The worker waits for a completion in its io_service, and none has arrived. -/
def Blocked (s : State n) (worker : Fin n) : Prop :=
  s.worker worker = .waitIo ∧ s.completed worker = []

instance (s : State n) (worker : Fin n) : Decidable (Blocked s worker) :=
  inferInstanceAs (Decidable (_ ∧ _))

/-- A session is in the queue. -/
def Waiting (s : State n) : Prop := ∃ session ∈ s.queue, session.isSome

instance (s : State n) : Decidable (Waiting s) :=
  inferInstanceAs (Decidable (∃ session ∈ s.queue, session.isSome))

/-- A session waits in the queue until an operation of another session has been completed. -/
def Stranded (s : State n) : Prop := Waiting s ∧ ∀ worker, Blocked s worker

/-- A session comes to the queue only while some worker is not blocked. A worker with suspended
sessions, but no completion, goes to wait only while no session is in the queue or some other worker
is not blocked. -/
def Heeded (s : State n) : Action n → Prop
  | .deliver place => (s.arriving[place]?).any Option.isSome → ∃ worker, ¬ Blocked s worker
  | .work worker => s.worker worker = .testList → s.coroList worker ≠ [] →
      s.completed worker = [] → Waiting s → ∃ other, other ≠ worker ∧ ¬ Blocked s other
  | _ => True

instance (s : State n) : (action : Action n) → Decidable (Heeded s action)
  | .deliver _ => inferInstanceAs (Decidable (_ → ∃ worker, ¬ Blocked s worker))
  | .work worker => inferInstanceAs (Decidable (_ → _ → _ → _ →
      ∃ other, other ≠ worker ∧ ¬ Blocked s other))
  | .submit _ | .tryPop _ _ | .awaitIo _ | .finish _ | .complete _ _ | .testCoro _ _ | .requestStop
  | .stopThread _ => .isTrue trivial

/-! ### Workers that do not come to wait -/

/-- The worker has taken a step that leaves the others alone, and is not at its wait for a
completion. -/
def Turns (s next : State n) (worker : Fin n) : Prop :=
  next.worker worker ≠ .waitIo ∧ ∀ other, other ≠ worker →
    next.worker other = s.worker other ∧ next.coroList other = s.coroList other

theorem Turns.not_stranded (turns : Turns s next worker) : ¬ Stranded next :=
  fun stranded => turns.1 (stranded.2 worker).1

theorem turns_self (away : s.worker worker ≠ .waitIo) : Turns s s worker :=
  ⟨away, fun _ _ => ⟨rfl, rfl⟩⟩

theorem turns_setWorker (s : State n) (worker : Fin n) {pc : WorkerPc} (elsewhere : pc ≠ .waitIo) :
    Turns s (s.setWorker worker pc) worker := by
  refine ⟨?_, fun other different => ⟨Function.update_of_ne different _ _, rfl⟩⟩
  show Function.update s.worker worker pc worker ≠ .waitIo
  rw [Function.update_self]
  exact elsewhere

/-- A worker that changes its coroutine list goes on. -/
theorem turns_setCoroList (s : State n) (worker : Fin n) (list : List Nat) {pc : WorkerPc}
    (elsewhere : pc ≠ .waitIo) : Turns s ((s.setCoroList worker list).setWorker worker pc) worker :=
  ⟨(turns_setWorker (s.setCoroList worker list) worker elsewhere).1, fun _ different =>
    ⟨Function.update_of_ne different _ _, Function.update_of_ne different _ _⟩⟩

theorem returned_ne_waitIo (session : Nat) (first : Bool) : returned session first ≠ .waitIo := by
  cases first <;> exact fun same => by cases same

theorem turns_resume (away : s.worker worker ≠ .waitIo) (session : Nat) (first : Bool) :
    Turns s (s.resume worker session first).1 worker := by
  unfold State.resume
  split
  · exact turns_setWorker (s.setFrame _ _) _ fun same => by cases same
  · exact turns_setWorker (s.setFrame _ _) _ fun same => by cases same
  · exact turns_self away

theorem turns_awaitIo (away : s.worker worker ≠ .waitIo) (session : Nat) (first : Bool) :
    Turns s (s.awaitIo worker session first).1 worker := by
  unfold State.awaitIo
  split
  · exact turns_setWorker ((s.setFrame _ _).setPending _ _) _ (returned_ne_waitIo session first)
  · exact turns_self away

theorem turns_finish (away : s.worker worker ≠ .waitIo) (session : Nat) (first : Bool) :
    Turns s (s.finish worker session first).1 worker := by
  unfold State.finish
  split
  · exact turns_setWorker (s.setFrame _ _) _ (returned_ne_waitIo session first)
  · exact turns_self away

theorem turns_testDone (away : s.worker worker ≠ .waitIo) (session : Nat) :
    Turns s (s.testDone worker session).1 worker := by
  unfold State.testDone
  split
  · exact turns_setWorker _ _ fun same => by cases same
  · exact turns_setCoroList _ _ _ fun same => by cases same
  · exact turns_self away

theorem turns_testCoro (away : s.worker worker ≠ .waitIo) (session : Nat) (rest : List Nat) :
    Turns s (s.testCoro worker session rest).1 worker := by
  unfold State.testCoro
  split
  · exact turns_setCoroList (s.setFrame _ _) _ _ fun same => by cases same
  · exact turns_setWorker _ _ fun same => by cases same
  · exact turns_self away

/-- A worker comes to wait only from its test of the coroutine list. -/
theorem turns_work (step : s.work worker = some (next, events))
    (elsewhere : s.worker worker ≠ .testList) : Turns s next worker := by
  unfold State.work at step
  split at step
  case h_1 =>
    cases step
    refine turns_setWorker _ _ ?_
    split <;> exact fun same => by cases same
  case h_2 =>
    split at step <;> cases step
    exact turns_setWorker _ _ fun same => by cases same
  case h_3 =>
    cases step
    exact turns_setWorker _ _ fun same => by cases same
  case h_4 pc =>
    split at step <;> cases step
    · exact turns_setWorker (s.setFrame _ _) _ fun same => by cases same
    · exact turns_self fun same => by rw [pc] at same; cases same
  case h_5 session pc =>
    have same : (s.resume worker session true).1 = next := congrArg Prod.fst (Option.some.inj step)
    subst same
    exact turns_resume (fun same => by rw [pc] at same; cases same) _ _
  case h_6 session pc =>
    have same : (s.testDone worker session).1 = next := congrArg Prod.fst (Option.some.inj step)
    subst same
    exact turns_testDone (fun same => by rw [pc] at same; cases same) _
  case h_7 pc => exact absurd pc elsewhere
  case h_8 =>
    split at step <;> cases step
    exact turns_setWorker _ _ fun same => by cases same
  case h_9 pc =>
    split at step
    · rename_i session rest _
      have same : ((s.setCompleted worker rest).resume worker session false).1 = next :=
        congrArg Prod.fst (Option.some.inj step)
      subst same
      have away : (s.setCompleted worker rest).worker worker ≠ .waitIo := by
        show s.worker worker ≠ .waitIo
        exact fun same => by rw [pc] at same; cases same
      exact turns_resume away _ _
    · cases step
      exact turns_setWorker _ _ fun same => by cases same
  case h_10 =>
    cases step
    exact turns_setWorker _ _ fun same => by cases same
  all_goals cases step

/-- The workers stay where they are. -/
structure Rests (s next : State n) (action : Action n) : Prop where
  worker : next.worker = s.worker
  coroList : next.coroList = s.coroList
  queue : (∀ place, action ≠ .deliver place) → next.queue = s.queue
  completed : ∀ worker, next.completed worker = [] → s.completed worker = []

/-- What one step does to the workers: one of them takes a turn, or it goes from its test of the
coroutine list to where that sends it, or all stay where they are. -/
theorem turns_of_step {action : Action n} (step : system s action = some (next, events)) :
    (∃ worker, Turns s next worker) ∨
      (∃ worker, action = .work worker ∧ s.worker worker = .testList) ∨ Rests s next action := by
  cases action with
  | submit hasCoro =>
    cases hasCoro <;> cases step <;>
      exact Or.inr (Or.inr ⟨rfl, rfl, fun _ => rfl, fun _ nothing => nothing⟩)
  | requestStop | stopThread =>
    cases step
    exact Or.inr (Or.inr ⟨rfl, rfl, fun _ => rfl, fun _ nothing => nothing⟩)
  | deliver place =>
    obtain ⟨session, _, same⟩ := Option.map_eq_some_iff.mp step
    cases same
    exact Or.inr (Or.inr ⟨rfl, rfl, fun other => absurd rfl (other place),
      fun _ nothing => nothing⟩)
  | complete worker place =>
    obtain ⟨session, _, same⟩ := Option.map_eq_some_iff.mp step
    cases same
    refine Or.inr (Or.inr ⟨rfl, rfl, fun _ => rfl, fun other nothing => ?_⟩)
    have updated : Function.update s.completed worker (s.completed worker ++ [session]) other =
      [] := nothing
    by_cases this : other = worker
    · subst this
      rw [Function.update_self] at updated
      exact absurd updated (List.append_ne_nil_of_right_ne_nil _ (List.cons_ne_nil _ _))
    · rwa [Function.update_of_ne this] at updated
  | work worker =>
    by_cases at_list : s.worker worker = .testList
    · exact Or.inr (Or.inl ⟨worker, rfl, at_list⟩)
    · exact Or.inl ⟨worker, turns_work step at_list⟩
  | tryPop worker place =>
    refine Or.inl ⟨worker, ?_⟩
    cases place with
    | none =>
      rw [system] at step
      split at step <;> cases step
      exact turns_setWorker _ _ fun same => by cases same
    | some place =>
      rw [system] at step
      split at step
      · obtain ⟨session, _, same⟩ := Option.map_eq_some_iff.mp step
        cases same
        exact turns_setWorker { s with queue := s.queue.eraseIdx place } _ fun same => by cases same
      · cases step
  | awaitIo worker =>
    refine Or.inl ⟨worker, ?_⟩
    rw [system] at step
    split at step
    · rename_i session first pc
      have same : (s.awaitIo worker session first).1 = next :=
        congrArg Prod.fst (Option.some.inj step)
      subst same
      exact turns_awaitIo (fun same => by rw [pc] at same; cases same) _ _
    · cases step
  | finish worker =>
    refine Or.inl ⟨worker, ?_⟩
    rw [system] at step
    split at step
    · rename_i session first pc
      have same : (s.finish worker session first).1 = next :=
        congrArg Prod.fst (Option.some.inj step)
      subst same
      exact turns_finish (fun same => by rw [pc] at same; cases same) _ _
    · cases step
  | testCoro worker place =>
    refine Or.inl ⟨worker, ?_⟩
    rw [system] at step
    split at step
    · rename_i rest pc
      obtain ⟨session, _, same⟩ := Option.map_eq_some_iff.mp step
      have same' : (s.testCoro worker session (rest.eraseIdx place)).1 = next :=
        congrArg Prod.fst same
      subst same'
      exact turns_testCoro (fun same => by rw [pc] at same; cases same) _ _
    · cases step

/-! ### One step -/

/-- The last worker that is not blocked begins to wait. -/
theorem stranded_iff_of_wait (at_list : s.worker worker = .testList)
    (step : s.work worker = some (next, events)) :
    Stranded next ↔ ¬ Heeded s (.work worker) := by
  rw [State.work, at_list] at step
  cases step
  by_cases empty : s.coroList worker = []
  · rw [if_pos empty]
    refine iff_of_false (turns_setWorker _ _ fun same => by cases same).not_stranded ?_
    exact fun unheeded => unheeded fun _ suspended => absurd empty suspended
  · rw [if_neg empty]
    constructor
    · rintro ⟨waiting, blocked⟩ heeded
      obtain ⟨other, different, free⟩ := heeded at_list empty (blocked worker).2 waiting
      refine free ⟨?_, (blocked other).2⟩
      rw [← (blocked other).1]
      exact (Function.update_of_ne different _ _).symm
    · intro unheeded
      obtain ⟨nothing, waiting, others⟩ : s.completed worker = [] ∧ Waiting s ∧
          ∀ other, other ≠ worker → Blocked s other := by
        simp only [Heeded, not_forall, not_exists, not_and, not_not] at unheeded
        obtain ⟨_, _, nothing, waiting, others⟩ := unheeded
        exact ⟨nothing, waiting, others⟩
      refine ⟨waiting, fun other => ?_⟩
      by_cases this : other = worker
      · subst this
        exact ⟨Function.update_self .., nothing⟩
      · refine ⟨(Function.update_of_ne this _ _).trans (others other this).1, (others other this).2⟩

/-- A session comes to the queue. -/
theorem stranded_iff_of_deliver {place : Nat} (free : ¬ Stranded s)
    (step : system s (.deliver place) = some (next, events)) :
    Stranded next ↔ ¬ Heeded s (.deliver place) := by
  obtain ⟨session, arrived, same⟩ := Option.map_eq_some_iff.mp step
  cases same
  constructor
  · rintro ⟨⟨waits, member, isSome⟩, blocked⟩ heeded
    refine free ⟨?_, blocked⟩
    rcases List.mem_append.mp member with old | new
    · exact ⟨waits, old, isSome⟩
    · rw [← List.mem_singleton.mp new] at arrived
      obtain ⟨worker, unblocked⟩ := heeded (by rw [arrived]; exact isSome)
      exact absurd (blocked worker) unblocked
  · intro unheeded
    simp only [Heeded, not_forall, not_exists, not_not] at unheeded
    obtain ⟨isSome, blocked⟩ := unheeded
    rw [arrived] at isSome
    exact ⟨⟨session, List.mem_append_right _ List.mem_cons_self, isSome⟩, blocked⟩

/-- A step leads to a stranded session just when it is not heeded. -/
theorem stranded_iff_not_heeded {action : Action n} (free : ¬ Stranded s)
    (step : system s action = some (next, events)) : Stranded next ↔ ¬ Heeded s action := by
  -- no other action has a condition, so it must not strand a session
  suffices others : (∀ place, action ≠ .deliver place) →
      (∀ worker, action = .work worker → s.worker worker ≠ .testList) →
      Heeded s action ∧ ¬ Stranded next by
    cases action with
    | deliver place => exact stranded_iff_of_deliver free step
    | work worker =>
      by_cases at_list : s.worker worker = .testList
      · exact stranded_iff_of_wait at_list step
      · obtain ⟨heeded, served⟩ := others (fun _ same => by cases same) fun _ same => by
          cases same
          exact at_list
        exact iff_of_false served (not_not.mpr heeded)
    | _ =>
      obtain ⟨heeded, served⟩ := others (fun _ same => by cases same) fun _ same => by cases same
      exact iff_of_false served (not_not.mpr heeded)
  intro undelivered elsewhere
  have heeded : Heeded s action := by
    cases action with
    | deliver place => exact absurd rfl (undelivered place)
    | work worker => exact fun at_list => absurd at_list (elsewhere worker rfl)
    | _ => exact trivial
  refine ⟨heeded, ?_⟩
  rcases turns_of_step step with ⟨worker, turns⟩ | ⟨worker, same, at_list⟩ | rests
  · exact turns.not_stranded
  · exact absurd at_list (elsewhere worker same)
  · rintro ⟨⟨session, member, isSome⟩, blocked⟩
    rw [rests.queue undelivered] at member
    refine free ⟨⟨session, member, isSome⟩, fun worker => ?_⟩
    obtain ⟨waits, nothing⟩ := blocked worker
    rw [rests.worker] at waits
    exact ⟨waits, rests.completed worker nothing⟩

/-! ### Every run -/

theorem never_stranded (run : ReachesBy Heeded system (start : State n) s trace) :
    ¬ Stranded s ∧ ∀ action next events, system s action = some (next, events) →
      (Stranded next ↔ ¬ Heeded s action) := by
  have free : ¬ Stranded s := by
    refine run.invariant (fun s _ => ¬ Stranded s) ?_ ?_
    · rintro ⟨⟨session, member, _⟩, _⟩
      cases member
    · intro s trace action next events _ free heeded step
      exact fun stranded => (stranded_iff_not_heeded free step).mp stranded heeded
  exact ⟨free, fun _ _ _ step => stranded_iff_not_heeded free step⟩

/-! ### A worker to spare -/

/-- Where a session comes to the queue, and where a worker with suspended sessions goes to wait for
a completion, some worker has no suspended session. -/
def Spares (s : State n) : Action n → Prop
  | .deliver _ => ∃ worker, s.coroList worker = []
  | .work worker => s.worker worker = .testList → s.coroList worker ≠ [] →
      ∃ other, s.coroList other = []
  | _ => True

/-- Only workers with suspended sessions wait for completions. -/
def Suspends (s : State n) : Prop :=
  ∀ worker, s.worker worker = .waitIo → s.coroList worker ≠ []

theorem suspends_of_step {action : Action n} (suspends : Suspends s)
    (step : system s action = some (next, events)) : Suspends next := by
  intro waiting waits
  rcases turns_of_step step with ⟨worker, away, others⟩ | ⟨worker, rfl, at_list⟩ | rests
  · have different : waiting ≠ worker := by
      rintro rfl
      exact away waits
    obtain ⟨pc, list⟩ := others waiting different
    rw [list]
    exact suspends waiting (pc.symm.trans waits)
  · rw [system, State.work, at_list] at step
    cases step
    by_cases this : waiting = worker
    · subst this
      have sent : Function.update s.worker waiting
          (if s.coroList waiting = [] then .testStop else .waitIo) waiting = .waitIo := waits
      show s.coroList waiting ≠ []
      intro empty
      rw [Function.update_self, if_pos empty] at sent
      cases sent
    · exact suspends waiting ((Function.update_of_ne this _ _).symm.trans waits)
  · rw [rests.worker] at waits
    rw [rests.coroList]
    exact suspends waiting waits

theorem suspends_of_reaches (run : Reaches system (start : State n) s trace) : Suspends s :=
  run.invariant (fun s _ => Suspends s) (fun _ waits => by cases waits)
    fun _ _ _ _ _ _ suspends step => suspends_of_step suspends step

/-- A worker without suspended sessions is not blocked. -/
theorem Suspends.heeded {action : Action n} (suspends : Suspends s) (spares : Spares s action) :
    Heeded s action := by
  have free {worker : Fin n} (empty : s.coroList worker = []) : ¬ Blocked s worker :=
    fun blocked => suspends worker blocked.1 empty
  cases action with
  | deliver place =>
    obtain ⟨worker, empty⟩ := spares
    exact fun _ => ⟨worker, free empty⟩
  | work worker =>
    intro at_list nonempty _ _
    obtain ⟨other, empty⟩ := spares at_list nonempty
    refine ⟨other, ?_, free empty⟩
    rintro rfl
    exact nonempty empty
  | _ => trivial

/-- No session is stranded in a run whose steps are all heeded, and a step that is not strands one.
None is in a run that has a worker to spare whenever one is needed. -/
theorem not_stranded_of_heeded (n : Nat) :
    (∀ (s : State n) trace, ReachesBy Heeded system start s trace →
      ¬ Stranded s ∧ ∀ action next events, system s action = some (next, events) →
        (Stranded next ↔ ¬ Heeded s action)) ∧
    ∀ (s : State n) trace, ReachesBy Spares system start s trace → ¬ Stranded s := by
  refine ⟨fun _ _ run => never_stranded run, fun s trace run => ?_⟩
  have heeded : ReachesBy Heeded system start s trace :=
    run.imp fun _ _ _ _ _ before _ spares => (suspends_of_reaches before).heeded spares
  exact (never_stranded heeded).1

/-! ### Sessions that stay stranded -/

/-- The action is not a completion. -/
def Incomplete : Action n → Prop
  | .complete _ _ => False
  | _ => True

/-- Where a session is stranded, nobody but the callers of `submit` does anything until a completion
arrives. -/
theorem stranded_of_incomplete {action : Action n} (stranded : Stranded s)
    (incomplete : Incomplete action) (step : system s action = some (next, events)) :
    Stranded next ∧ ∀ worker session first, .resumed worker session first ∉ events := by
  have idle (worker : Fin n) := stranded.2 worker
  cases action with
  | submit hasCoro =>
    cases hasCoro <;> cases step
    · exact ⟨stranded, fun _ _ _ => List.not_mem_nil⟩
    · exact ⟨stranded, fun _ _ _ member => by cases List.mem_singleton.mp member⟩
  | deliver place =>
    obtain ⟨session, _, same⟩ := Option.map_eq_some_iff.mp step
    cases same
    obtain ⟨⟨waits, member, isSome⟩, blocked⟩ := stranded
    exact ⟨⟨⟨waits, List.mem_append_left _ member, isSome⟩, blocked⟩, fun _ _ _ => List.not_mem_nil⟩
  | work worker =>
    have none : s.work worker = none := by
      unfold State.work
      rw [(idle worker).1]
      exact if_pos (idle worker).2
    rw [system, none] at step
    cases step
  | tryPop worker place =>
    have other : s.worker worker ≠ .tryPop := by
      rw [(idle worker).1]
      exact fun same => by cases same
    cases place <;> rw [system, if_neg other] at step <;> cases step
  | awaitIo worker =>
    rw [system, (idle worker).1] at step
    cases step
  | finish worker =>
    rw [system, (idle worker).1] at step
    cases step
  | complete worker place => exact absurd incomplete id
  | testCoro worker place =>
    rw [system, (idle worker).1] at step
    cases step
  | requestStop =>
    cases step
    exact ⟨stranded, fun _ _ _ => List.not_mem_nil⟩
  | stopThread worker =>
    cases step
    exact ⟨stranded, fun _ _ _ => List.not_mem_nil⟩

/-- A stranded session stays so in every run without completions. -/
theorem stranded_forever (stranded : Stranded s)
    (run : ReachesBy (fun _ action => Incomplete action) system s next trace) :
    Stranded next ∧ ∀ worker session first, .resumed worker session first ∉ trace := by
  refine run.invariant (fun next trace => Stranded next ∧
    ∀ worker session first, .resumed worker session first ∉ trace)
    ⟨stranded, fun _ _ _ => List.not_mem_nil⟩ ?_
  rintro next trace action last events _ ⟨stranded, silent⟩ incomplete step
  obtain ⟨still, nothing⟩ := stranded_of_incomplete stranded incomplete step
  refine ⟨still, fun worker session first member => ?_⟩
  rcases List.mem_append.mp member with old | new
  · exact silent worker session first old
  · exact nothing worker session first new

section Example

/-- A session awaits an operation, its worker waits for the completion, and a second session is
submitted. -/
def secondClient (worker : Fin n) : List (Action n) :=
  awaitsOnce worker ++ [.tryPop worker none, .work worker, .submit true, .deliver 0]

/-- The second session has to wait for the client of the first. -/
theorem stranded_secondClient : ∃ s trace, Reaches system (start : State 1) s trace ∧
    some 1 ∈ s.queue ∧ s.pending 0 = [0] ∧ Stranded s ∧
    ∀ last later, ReachesBy (fun _ action => Incomplete action) system s last later →
      Stranded last ∧ ∀ worker session first, .resumed worker session first ∉ later := by
  have reached : (execute system (start : State 1) (secondClient 0)).any (fun reached => decide
      (reached.1.queue = [some 1] ∧ reached.1.pending 0 = [0] ∧ reached.1.worker 0 = .waitIo ∧
        reached.1.completed 0 = [])) = true := by
    decide +kernel
  obtain ⟨⟨s, trace⟩, executed, same⟩ := (Option.any_eq_true _ _).mp reached
  obtain ⟨queue, pending, waits, nothing⟩ := of_decide_eq_true same
  have member : some 1 ∈ s.queue := by
    rw [queue]
    exact List.mem_cons_self
  have stranded : Stranded s := by
    refine ⟨⟨some 1, member, rfl⟩, fun worker => ?_⟩
    rw [Subsingleton.elim worker 0]
    exact ⟨waits, nothing⟩
  exact ⟨s, trace, reaches_of_execute executed, member, pending, stranded,
    fun _ _ run => stranded_forever stranded run⟩

/-- With another worker, which waits for the condition variable, the second session is served. -/
def servedSecond (worker other : Fin n) : List (Action n) :=
  awaitsOnce worker ++ [.tryPop worker none, .work worker, .work other, .submit true, .deliver 0,
    .work other, .tryPop other (some 0), .work other, .work other]

theorem not_stranded_of_heeded_served : ∃ s trace,
    executeBy Heeded system (start : State 2) (servedSecond 0 1) = some (s, trace) ∧
    .resumed 1 1 true ∈ trace ∧
    (¬ Stranded s ∧ ∀ action next events, system s action = some (next, events) →
      (Stranded next ↔ ¬ Heeded s action)) := by
  have reached : (executeBy Heeded system (start : State 2) (servedSecond 0 1)).any (fun reached =>
      decide (.resumed 1 1 true ∈ reached.2)) = true := by
    decide +kernel
  obtain ⟨⟨s, trace⟩, executed, same⟩ := (Option.any_eq_true _ _).mp reached
  exact ⟨s, trace, executed, of_decide_eq_true same,
    (not_stranded_of_heeded 2).1 s trace (reachesBy_of_executeBy .start executed)⟩

end Example

end Sessions

end Sheep
