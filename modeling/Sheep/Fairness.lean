/-
This file is a library for what happens sooner or later in systems that take one
atomic step after another.

A behaviour is an infinite run. At each of its moments an action is taken, or
nothing happens, so that a run that is over has a behaviour as well. An action is
treated fairly if it is taken when it stays possible. `LeadsTo` relates moments:
its rules are the step of a fair action and the descent of a measure.
-/

import Mathlib.Order.Nat
import Sheep.Transitions

namespace Transitions

variable {State Action Event : Type} {system : System State Action Event} {start : State}

/-! ### Behaviours -/

/-- What happens at a moment. -/
inductive Happens (system : System State Action Event) (state : State) :
    Option Action → State → List Event → Prop
  | action {action : Action} {next : State} {events : List Event} :
      system state action = some (next, events) → Happens system state (some action) next events
  | nothing : Happens system state none state []

structure Behaviour (system : System State Action Event) (start : State) where
  state : Nat → State
  action : Nat → Option Action
  events : Nat → List Event
  initial : state 0 = start
  happens : ∀ moment, Happens system (state moment) (action moment) (state (moment + 1))
    (events moment)

namespace Behaviour

variable (behaviour : Behaviour system start)

/-- The events before a moment. -/
def trace : Nat → List Event
  | 0 => []
  | moment + 1 => trace moment ++ behaviour.events moment

theorem step {moment : Nat} {action : Action} (taken : behaviour.action moment = some action) :
    system (behaviour.state moment) action =
      some (behaviour.state (moment + 1), behaviour.events moment) := by
  have happens := behaviour.happens moment
  rw [taken] at happens
  generalize behaviour.state (moment + 1) = next at happens ⊢
  generalize behaviour.events moment = events at happens ⊢
  cases happens with
  | action step => exact step

theorem still {moment : Nat} (taken : behaviour.action moment = none) :
    behaviour.state (moment + 1) = behaviour.state moment ∧ behaviour.events moment = [] := by
  have happens := behaviour.happens moment
  rw [taken] at happens
  generalize behaviour.state (moment + 1) = next at happens ⊢
  generalize behaviour.events moment = events at happens ⊢
  cases happens with
  | nothing => exact ⟨rfl, rfl⟩

/-- Every moment is reached by a run. -/
theorem reaches (moment : Nat) :
    Reaches system start (behaviour.state moment) (behaviour.trace moment) := by
  induction moment with
  | zero =>
    rw [behaviour.initial]
    exact .start
  | succ moment inductionHypothesis =>
    rw [trace]
    cases taken : behaviour.action moment with
    | some action => exact .next inductionHypothesis (behaviour.step taken)
    | none =>
      obtain ⟨same, silent⟩ := behaviour.still taken
      rw [same, silent, List.append_nil]
      exact inductionHypothesis

theorem trace_append {moment later : Nat} (le : moment ≤ later) :
    ∃ rest, behaviour.trace later = behaviour.trace moment ++ rest := by
  induction le with
  | refl => exact ⟨[], (List.append_nil _).symm⟩
  | @step later _ inductionHypothesis =>
    obtain ⟨rest, same⟩ := inductionHypothesis
    refine ⟨rest ++ behaviour.events later, ?_⟩
    rw [trace, same, List.append_assoc]

/-- An action that is possible from some moment on is taken. -/
def WeaklyFair (action : Action) : Prop :=
  ∀ moment, (∀ later ≥ moment, (system (behaviour.state later) action).isSome) →
    ∃ later ≥ moment, behaviour.action later = some action

end Behaviour

/-! ### Sooner or later -/

/-- What comes after every moment of one kind, or at it. -/
def LeadsTo (before after : Nat → Prop) : Prop :=
  ∀ moment, before moment → ∃ later ≥ moment, after later

/-- What stays as it is. -/
def Stable (holds : Nat → Prop) : Prop :=
  ∀ moment, holds moment → holds (moment + 1)

variable {before after holds : Nat → Prop}

theorem Stable.of_le (stable : Stable holds) {moment later : Nat} (here : holds moment)
    (le : moment ≤ later) : holds later := by
  induction le with
  | refl => exact here
  | step _ inductionHypothesis => exact stable _ inductionHypothesis

/-- Finitely many things that come and stay are there together. -/
theorem exists_forall_of_stable {holds : Nat → Nat → Prop} {bound : Nat}
    (stable : ∀ index < bound, Stable (holds index))
    (comes : ∀ index < bound, ∃ moment, holds index moment) (moment : Nat) :
    ∃ later ≥ moment, ∀ index < bound, holds index later := by
  induction bound with
  | zero => exact ⟨moment, le_refl _, fun index less => absurd less (Nat.not_lt_zero _)⟩
  | succ bound inductionHypothesis =>
    obtain ⟨first, after, together⟩ := inductionHypothesis
      (fun index less => stable index (Nat.lt_succ_of_lt less))
      (fun index less => comes index (Nat.lt_succ_of_lt less))
    obtain ⟨second, here⟩ := comes bound (Nat.lt_succ_self _)
    refine ⟨max first second, after.trans (le_max_left _ _), fun index less => ?_⟩
    rcases Nat.lt_succ_iff_lt_or_eq.mp less with less | rfl
    · exact (stable index (Nat.lt_succ_of_lt less)).of_le (together index less) (le_max_left _ _)
    · exact (stable index (Nat.lt_succ_self _)).of_le here (le_max_right _ _)

/-- The descent of a measure. -/
theorem leadsTo_of_measure (measure : Nat → Nat) (progress : ∀ moment, before moment →
      ∃ later ≥ moment, after later ∨ before later ∧ measure later < measure moment) :
    LeadsTo before after := by
  have descent (bound : Nat) : ∀ moment, before moment → measure moment < bound →
      ∃ later ≥ moment, after later := by
    induction bound with
    | zero => exact fun moment _ less => absurd less (Nat.not_lt_zero _)
    | succ bound inductionHypothesis =>
      intro moment here small
      obtain ⟨later, le, reached | ⟨again, less⟩⟩ := progress moment here
      · exact ⟨later, le, reached⟩
      · obtain ⟨last, latest, reached⟩ := inductionHypothesis later again
          (lt_of_lt_of_le less (Nat.lt_succ_iff.mp small))
        exact ⟨last, le.trans latest, reached⟩
  exact fun moment here => descent _ moment here (Nat.lt_succ_self _)

/-- The step of a fair action: what holds until it is taken, and makes it possible, leads to what
the action brings about, if nothing else does so before. -/
theorem Behaviour.leadsTo_of_fair (behaviour : Behaviour system start) {action : Action}
    (fair : behaviour.WeaklyFair action)
    (possible : ∀ moment, before moment → (system (behaviour.state moment) action).isSome)
    (kept : ∀ moment, before moment → behaviour.action moment ≠ some action →
      before (moment + 1) ∨ after (moment + 1))
    (helps : ∀ moment, before moment → behaviour.action moment = some action →
      after (moment + 1)) :
    LeadsTo before after := by
  intro moment here
  by_contra never
  have waits (later : Nat) (le : moment ≤ later) : before later := by
    induction le with
    | refl => exact here
    | @step later le inductionHypothesis =>
      have missed : ¬ after (later + 1) := fun reached =>
        never ⟨later + 1, Nat.le_succ_of_le le, reached⟩
      refine (kept later inductionHypothesis fun taken => ?_).resolve_right missed
      exact missed (helps later inductionHypothesis taken)
  obtain ⟨later, le, taken⟩ := fair moment fun later le => possible later (waits later le)
  exact never ⟨later + 1, Nat.le_succ_of_le le, helps later (waits later le) taken⟩

/-! ### The behaviour of a schedule -/

/-- The moments of a schedule. After it, or where its next action is not possible, nothing happens
any more. -/
def follow (system : System State Action Event) :
    State → List Action → Nat → State × Option Action × List Event
  | state, [], _ => (state, none, [])
  | state, action :: rest, moment =>
      match system state action with
      | none => (state, none, [])
      | some (next, events) =>
          match moment with
          | 0 => (state, some action, events)
          | moment + 1 => follow system next rest moment

theorem follow_zero (state : State) (schedule : List Action) :
    (follow system state schedule 0).1 = state := by
  cases schedule with
  | nil => rfl
  | cons action rest =>
    rw [follow]
    cases system state action <;> rfl

theorem happens_follow (state : State) (schedule : List Action) (moment : Nat) :
    Happens system (follow system state schedule moment).1
      (follow system state schedule moment).2.1 (follow system state schedule (moment + 1)).1
      (follow system state schedule moment).2.2 := by
  induction schedule generalizing state moment with
  | nil => exact .nothing
  | cons action rest inductionHypothesis =>
    cases step : system state action with
    | none =>
      simp only [follow, step]
      exact .nothing
    | some stepped =>
      obtain ⟨next, events⟩ := stepped
      cases moment with
      | zero =>
        simp only [follow, step, follow_zero]
        exact .action step
      | succ moment =>
        simp only [follow, step]
        exact inductionHypothesis next moment

/-- Follow a schedule, and stop. -/
def Behaviour.ofSchedule (system : System State Action Event) (start : State)
    (schedule : List Action) : Behaviour system start where
  state moment := (follow system start schedule moment).1
  action moment := (follow system start schedule moment).2.1
  events moment := (follow system start schedule moment).2.2
  initial := follow_zero start schedule
  happens := happens_follow start schedule

/-- When a schedule has been executed, nothing changes any more. -/
theorem follow_of_length_le {state reached : State} {trace : List Event}
    {schedule : List Action} (executed : execute system state schedule = some (reached, trace))
    {moment : Nat} (le : schedule.length ≤ moment) :
    follow system state schedule moment = (reached, none, []) := by
  induction schedule generalizing state trace moment with
  | nil =>
    cases executed
    rfl
  | cons action rest inductionHypothesis =>
    obtain ⟨next, events, later, step, onward, _⟩ := cons_of_execute executed
    cases moment with
    | zero => exact absurd le (Nat.not_succ_le_zero _)
    | succ moment =>
      rw [follow, step]
      exact inductionHypothesis onward (Nat.succ_le_succ_iff.mp le)

theorem trace_of_length_le {reached : State} {trace : List Event} {schedule : List Action}
    (executed : execute system start schedule = some (reached, trace)) {moment : Nat}
    (le : schedule.length ≤ moment) :
    (Behaviour.ofSchedule system start schedule).trace moment =
      (Behaviour.ofSchedule system start schedule).trace schedule.length := by
  induction le with
  | refl => rfl
  | @step moment le inductionHypothesis =>
    have silent : (Behaviour.ofSchedule system start schedule).events moment = [] :=
      congrArg (fun happened => happened.2.2) (follow_of_length_le executed le)
    rw [Behaviour.trace, silent, List.append_nil]
    exact inductionHypothesis

/-- A schedule is fair to what is no longer possible behind it. -/
theorem weaklyFair_ofSchedule {reached : State} {trace : List Event} {schedule : List Action}
    (executed : execute system start schedule = some (reached, trace)) {action : Action}
    (none : system reached action = none) :
    (Behaviour.ofSchedule system start schedule).WeaklyFair action := by
  intro moment possible
  have last := possible (max moment schedule.length) (le_max_left _ _)
  have state : (Behaviour.ofSchedule system start schedule).state (max moment schedule.length) =
      reached :=
    congrArg (fun happened => happened.1) (follow_of_length_le executed (le_max_right _ _))
  rw [state, none] at last
  cases last

end Transitions
