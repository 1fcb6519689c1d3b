/-
This file is a library for systems that take one atomic step after another.

A system is a partial function: an action either is not possible in a state or
leads to one next state and to some events. A run is what a schedule of actions
leads to, with the trace of its events. `Reaches.invariant` is the induction over
runs; `execute` computes the run of a schedule.
-/

import Mathlib.Data.List.Basic

namespace Transitions

variable {State Action Event : Type}

/-- What an action does in a state, if it is possible there. -/
abbrev System (State Action Event : Type) := State → Action → Option (State × List Event)

/-- The states some schedule leads to from `start`, each with the trace of the way to it. -/
inductive Reaches (system : System State Action Event) (start : State) :
    State → List Event → Prop
  | start : Reaches system start start []
  | next {state next : State} {trace events : List Event} {action : Action} :
      Reaches system start state trace → system state action = some (next, events) →
      Reaches system start next (trace ++ events)

/-- Runs in which every action is allowed where it is taken. -/
inductive ReachesBy (allowed : State → Action → Prop) (system : System State Action Event)
    (start : State) : State → List Event → Prop
  | start : ReachesBy allowed system start start []
  | next {state next : State} {trace events : List Event} {action : Action} :
      ReachesBy allowed system start state trace → allowed state action →
      system state action = some (next, events) →
      ReachesBy allowed system start next (trace ++ events)

/-- The run of a schedule, if all its actions are possible. -/
def execute (system : System State Action Event) :
    State → List Action → Option (State × List Event)
  | state, [] => some (state, [])
  | state, action :: rest =>
      match system state action with
      | none => none
      | some (next, events) =>
          (execute system next rest).map fun reached => (reached.1, events ++ reached.2)

/-- The run of a schedule, if all its actions are allowed where they are taken, and possible. -/
def executeBy (allowed : State → Action → Prop)
    [∀ state action, Decidable (allowed state action)] (system : System State Action Event) :
    State → List Action → Option (State × List Event)
  | state, [] => some (state, [])
  | state, action :: rest =>
      if allowed state action then
        match system state action with
        | none => none
        | some (next, events) =>
            (executeBy allowed system next rest).map fun reached => (reached.1, events ++ reached.2)
      else none

variable {system : System State Action Event} {start : State}

/-- A schedule is executed one action after the other. -/
theorem execute_cons {state next reached : State} {events trace : List Event} {action : Action}
    {schedule : List Action} (step : system state action = some (next, events))
    (executed : execute system next schedule = some (reached, trace)) :
    execute system state (action :: schedule) = some (reached, events ++ trace) := by
  rw [execute, step]
  show Option.map _ (execute system next schedule) = _
  rw [executed]
  rfl

/-- An executed schedule has taken its first action, and from there the others. -/
theorem cons_of_execute {state reached : State} {trace : List Event} {action : Action}
    {schedule : List Action}
    (executed : execute system state (action :: schedule) = some (reached, trace)) :
    ∃ next events later, system state action = some (next, events) ∧
      execute system next schedule = some (reached, later) ∧ trace = events ++ later := by
  rw [execute] at executed
  cases step : system state action with
  | none =>
    rw [step] at executed
    cases executed
  | some stepped =>
    obtain ⟨next, events⟩ := stepped
    rw [step] at executed
    obtain ⟨⟨_, later⟩, onward, same⟩ := Option.map_eq_some_iff.mp executed
    cases same
    exact ⟨next, events, later, rfl, onward, rfl⟩

/-- One schedule after another. -/
theorem execute_append {state middle reached : State} {events trace : List Event}
    {schedule rest : List Action} (first : execute system state schedule = some (middle, events))
    (second : execute system middle rest = some (reached, trace)) :
    execute system state (schedule ++ rest) = some (reached, events ++ trace) := by
  induction schedule generalizing state events with
  | nil =>
    cases first
    exact second
  | cons action schedule inductionHypothesis =>
    obtain ⟨next, told, later, step, onward, rfl⟩ := cons_of_execute first
    rw [List.append_assoc]
    exact execute_cons step (inductionHypothesis onward)

/-- What holds at the start and is kept by every step holds in every run. -/
theorem Reaches.invariant (Invariant : State → List Event → Prop) {state : State}
    {trace : List Event} (run : Reaches system start state trace) (initial : Invariant start [])
    (kept : ∀ state trace action next events, Reaches system start state trace →
      Invariant state trace → system state action = some (next, events) →
      Invariant next (trace ++ events)) : Invariant state trace := by
  induction run with
  | start => exact initial
  | next run step inductionHypothesis => exact kept _ _ _ _ _ run inductionHypothesis step

/-- A run after a first step. -/
theorem Reaches.after {action : Action} {state next reached : State} {events trace : List Event}
    (run : Reaches system next reached trace) (step : system state action = some (next, events)) :
    Reaches system state reached (events ++ trace) := by
  induction run with
  | start =>
    rw [List.append_nil]
    exact .next .start step
  | next _ later inductionHypothesis =>
    rw [← List.append_assoc]
    exact .next inductionHypothesis later

/-- One run after another. -/
theorem Reaches.trans {middle state : State} {first second : List Event}
    (before : Reaches system start middle first) (after : Reaches system middle state second) :
    Reaches system start state (first ++ second) := by
  induction after with
  | start =>
    rw [List.append_nil]
    exact before
  | next _ step inductionHypothesis =>
    rw [← List.append_assoc]
    exact .next inductionHypothesis step

/-- One run of allowed actions after another. -/
theorem ReachesBy.trans {allowed : State → Action → Prop} {middle state : State}
    {first second : List Event} (before : ReachesBy allowed system start middle first)
    (after : ReachesBy allowed system middle state second) :
    ReachesBy allowed system start state (first ++ second) := by
  induction after with
  | start =>
    rw [List.append_nil]
    exact before
  | next _ permitted step inductionHypothesis =>
    rw [← List.append_assoc]
    exact .next inductionHypothesis permitted step

/-- A simulation: where every step from a related state is followed by a run with the same events,
so is every run. What the same events are is kept by putting traces together. -/
theorem Reaches.simulates {State' Action' Event' : Type} {system' : System State' Action' Event'}
    {start' : State'} (Related : State → State' → Prop) (Same : List Event → List Event' → Prop)
    (nil : Same [] []) (append : ∀ first second first' second', Same first first' →
      Same second second' → Same (first ++ second) (first' ++ second'))
    (initial : Related start start')
    (follows : ∀ state state' action next events, Related state state' →
      system state action = some (next, events) → ∃ next' events',
        Reaches system' state' next' events' ∧ Same events events' ∧ Related next next')
    {state : State} {trace : List Event} (run : Reaches system start state trace) :
    ∃ state' trace', Reaches system' start' state' trace' ∧ Same trace trace' ∧
      Related state state' := by
  induction run with
  | start => exact ⟨start', [], .start, nil, initial⟩
  | next _ step inductionHypothesis =>
    obtain ⟨state', trace', run', same, related⟩ := inductionHypothesis
    obtain ⟨next', events', later, alike, following⟩ := follows _ _ _ _ _ related step
    exact ⟨next', trace' ++ events', run'.trans later, append _ _ _ _ same alike, following⟩

theorem ReachesBy.reaches {allowed : State → Action → Prop} {state : State} {trace : List Event}
    (run : ReachesBy allowed system start state trace) : Reaches system start state trace := by
  induction run with
  | start => exact .start
  | next _ _ step inductionHypothesis => exact .next inductionHypothesis step

/-- What is allowed only matters for the actions that are possible where a run may come. -/
theorem ReachesBy.imp {allowed permitted : State → Action → Prop} {state : State}
    {trace : List Event} (run : ReachesBy allowed system start state trace)
    (weaker : ∀ state trace action next events, Reaches system start state trace →
      system state action = some (next, events) → allowed state action → permitted state action) :
    ReachesBy permitted system start state trace := by
  induction run with
  | start => exact .start
  | next before allowed step inductionHypothesis =>
    exact .next inductionHypothesis (weaker _ _ _ _ _ before.reaches step allowed) step

theorem ReachesBy.mono {allowed permitted : State → Action → Prop} {state : State}
    {trace : List Event} (run : ReachesBy allowed system start state trace)
    (weaker : ∀ state action, allowed state action → permitted state action) :
    ReachesBy permitted system start state trace :=
  run.imp fun state _ action _ _ _ _ => weaker state action

/-- Where every action that is possible is allowed, all runs are runs of allowed actions. -/
theorem Reaches.reachesBy {allowed : State → Action → Prop} {state : State} {trace : List Event}
    (run : Reaches system start state trace)
    (always : ∀ state trace action, Reaches system start state trace → allowed state action) :
    ReachesBy allowed system start state trace := by
  induction run with
  | start => exact .start
  | next before step inductionHypothesis =>
    exact .next inductionHypothesis (always _ _ _ before) step

/-- The same for runs of allowed actions. -/
theorem ReachesBy.invariant {allowed : State → Action → Prop}
    (Invariant : State → List Event → Prop) {state : State} {trace : List Event}
    (run : ReachesBy allowed system start state trace) (initial : Invariant start [])
    (kept : ∀ state trace action next events, ReachesBy allowed system start state trace →
      Invariant state trace → allowed state action → system state action = some (next, events) →
      Invariant next (trace ++ events)) : Invariant state trace := by
  induction run with
  | start => exact initial
  | next run permitted step inductionHypothesis =>
    exact kept _ _ _ _ _ run inductionHypothesis permitted step

theorem reachesBy_of_execute_from {allowed : State → Action → Prop} {state reached : State}
    {before trace : List Event} {schedule : List Action}
    (run : ReachesBy allowed system start state before)
    (permitted : ∀ action ∈ schedule, ∀ state, allowed state action)
    (executed : execute system state schedule = some (reached, trace)) :
    ReachesBy allowed system start reached (before ++ trace) := by
  induction schedule generalizing state before trace with
  | nil =>
    rw [execute] at executed
    cases executed
    rw [List.append_nil]
    exact run
  | cons action rest inductionHypothesis =>
    obtain ⟨next, events, later, step, onward, rfl⟩ := cons_of_execute executed
    rw [← List.append_assoc]
    exact inductionHypothesis (.next run (permitted _ List.mem_cons_self _) step)
      (fun action member => permitted action (List.mem_cons_of_mem _ member)) onward

/-- A schedule of allowed actions that can be executed is a run of them. -/
theorem reachesBy_of_execute {allowed : State → Action → Prop} {reached : State}
    {trace : List Event} {schedule : List Action}
    (permitted : ∀ action ∈ schedule, ∀ state, allowed state action)
    (executed : execute system start schedule = some (reached, trace)) :
    ReachesBy allowed system start reached trace :=
  reachesBy_of_execute_from .start permitted executed

/-- A schedule that can be executed is a run. -/
theorem reaches_of_execute {reached : State} {trace : List Event} {schedule : List Action}
    (executed : execute system start schedule = some (reached, trace)) :
    Reaches system start reached trace :=
  ReachesBy.reaches (reachesBy_of_execute (fun _ _ _ => trivial) executed :
    ReachesBy (fun _ _ => True) system start reached trace)

/-- So is a schedule whose actions are allowed where they are taken. -/
theorem reachesBy_of_executeBy {allowed : State → Action → Prop}
    [∀ state action, Decidable (allowed state action)] {state reached : State}
    {before trace : List Event} {schedule : List Action}
    (run : ReachesBy allowed system start state before)
    (executed : executeBy allowed system state schedule = some (reached, trace)) :
    ReachesBy allowed system start reached (before ++ trace) := by
  induction schedule generalizing state before trace with
  | nil =>
    rw [executeBy] at executed
    cases executed
    rw [List.append_nil]
    exact run
  | cons action rest inductionHypothesis =>
    rw [executeBy] at executed
    split at executed
    · rename_i permitted
      cases step : system state action with
      | none =>
        rw [step] at executed
        cases executed
      | some stepped =>
        obtain ⟨next, events⟩ := stepped
        rw [step] at executed
        obtain ⟨⟨reached', trace'⟩, later, same⟩ := Option.map_eq_some_iff.mp executed
        cases same
        rw [← List.append_assoc]
        exact inductionHypothesis (.next run permitted step) later
    · cases executed

end Transitions
