/-
This file proves that `sync_wait` returns what the awaited code ends with, however
many threads take the code on, and that nothing touches the event or the coroutine
after it has returned. Once the code has ended, the caller returns within a number
of steps that only wakeups without a reason can prolong.

The flag of the event says how far the end of the code has come: it is set by the
thread that ran the last instruction, and that thread gives the mutex back before
the caller can leave.
-/

import Sheep.SyncWait

namespace Sheep

open Transitions DirectStyle

namespace SyncWait

variable {Thread Code Value Exception Request Result : Type}
  {program : Program Code Value Exception Request Result} {caller thread : Thread} {code : Code}
  {s next : State Thread Code Value Exception Result}
  {trace events : List (Event Value Exception Request Result)}

/-! ### The invariant -/

/-- Inside `set`. -/
inductive Sets : Monitor.Pc Bool SyncWaitEvent.Answer → Bool → Prop
  | lock : Sets (.lock SyncWaitEvent.set) false
  | store : Sets (.store SyncWaitEvent.set) false
  | notify : Sets (.notify .void) true
  | unlock : Sets (.unlock .void) true

/-- Inside `wait`. -/
inductive Waits : Monitor.Pc Bool SyncWaitEvent.Answer → Prop
  | waitLock : Waits .waitLock
  | test : Waits .test
  | asleep : Waits .asleep
  | leave : Waits .leave

/-- How far the awaited code has come. -/
inductive Work (s : State Thread Code Value Exception Result) : Prop
  | fresh {code : Code} (stage : s.stage = .created) (awaited : s.awaited = ⟨.evaluating code, []⟩)
      (runner : s.runner = none) (result : s.result = none) (unset : s.event.data = false)
  | running {thread : Thread} {code : Code} (stage : s.stage ≠ .created)
      (awaited : s.awaited.mode = .evaluating code) (runner : s.runner = some thread)
      (outside : s.event.pc thread = .outside) (result : s.result = none)
      (unset : s.event.data = false)
  | suspended {after : Result → Code} (stage : s.stage ≠ .created)
      (awaited : s.awaited.mode = .waiting after) (runner : s.runner = none)
      (result : s.result = none) (unset : s.event.data = false)
  | setting {thread : Thread} {outcome : Outcome Value Exception} (stage : s.stage ≠ .created)
      (awaited : s.awaited = ⟨.ended outcome, []⟩) (runner : s.runner = some thread)
      (inside : Sets (s.event.pc thread) s.event.data) (result : s.result = some outcome)
  | done {outcome : Outcome Value Exception} (stage : s.stage ≠ .created)
      (awaited : s.awaited = ⟨.ended outcome, []⟩) (runner : s.runner = none)
      (result : s.result = some outcome) (set : s.event.data = true)

/-- The caller waits, or is outside the event, and then it may be the one that runs the code. -/
inductive CallerStands (caller : Thread) (s : State Thread Code Value Exception Result) : Prop
  | created (stage : s.stage = .created) (outside : s.event.pc caller = .outside)
  | runs (stage : s.stage = .started) (runner : s.runner = some caller)
  | started (stage : s.stage = .started) (runner : s.runner ≠ some caller)
      (outside : s.event.pc caller = .outside)
  | waits (stage : s.stage = .waiting) (runner : s.runner ≠ some caller)
      (inside : Waits (s.event.pc caller))
  | waited (stage : s.stage = .waited ∨ ∃ outcome, s.stage = .returned outcome)
      (runner : s.runner = none) (outside : s.event.pc caller = .outside)
      (set : s.event.data = true)

/-- The invariant. Only the caller and the thread that runs the code are inside the event. -/
structure Kept (caller : Thread) (s : State Thread Code Value Exception Result) : Prop where
  guarded : Monitor.Guarded id s.event
  work : Work s
  stands : CallerStands caller s
  others : ∀ thread, thread ≠ caller → s.runner ≠ some thread → s.event.pc thread = .outside

theorem kept_start (caller : Thread) (code : Code) :
    Kept caller (start code : State Thread Code Value Exception Result) :=
  ⟨Monitor.guarded_start false, .fresh rfl rfl rfl rfl rfl, .created rfl rfl, fun _ _ _ => rfl⟩

theorem Sets.inside {pc : Monitor.Pc Bool SyncWaitEvent.Answer} (sets : Sets pc true) :
    pc.inside = true := by
  cases sets <;> rfl

theorem Waits.notified {pc : Monitor.Pc Bool SyncWaitEvent.Answer} (waits : Waits pc) :
    Waits pc.notified := by
  cases waits
  · exact .waitLock
  · exact .test
  · exact .waitLock
  · exact .leave

/-- The work is where it was while only the caller moves. -/
theorem Work.same (work : Work s) (before : s.stage ≠ .created) (stage : next.stage ≠ .created)
    (awaited : next.awaited = s.awaited) (runner : next.runner = s.runner)
    (result : next.result = s.result) (data : next.event.data = s.event.data)
    (pcs : ∀ thread, s.runner = some thread → next.event.pc thread = s.event.pc thread) :
    Work next := by
  cases work with
  | fresh created => exact absurd created before
  | running _ mode runs outside none unset =>
    exact .running stage (awaited ▸ mode) (runner.trans runs) ((pcs _ runs).trans outside)
      (result.trans none) (data.trans unset)
  | suspended _ mode idle none unset =>
    exact .suspended stage (awaited ▸ mode) (runner.trans idle) (result.trans none)
      (data.trans unset)
  | setting _ ended runs inside some =>
    refine .setting stage (awaited.trans ended) (runner.trans runs) ?_ (result.trans some)
    rw [pcs _ runs, data]
    exact inside
  | done _ ended idle some set =>
    exact .done stage (awaited.trans ended) (runner.trans idle) (result.trans some)
      (data.trans set)

/-! ### Steps -/

section Steps

variable [DecidableEq Thread] (kept : Kept caller s)
include kept

theorem Kept.start_step (created : s.stage = .created) :
    Kept caller { s with runner := some caller, stage := .started } := by
  have outside (thread : Thread) : s.event.pc thread = .outside := by
    by_cases this : thread = caller
    · subst this
      cases kept.stands with
      | created _ outside => exact outside
      | waited stage _ outside _ => exact outside
      | runs stage | started stage | waits stage =>
        rw [created] at stage
        cases stage
    · refine kept.others thread this ?_
      cases kept.work with
      | fresh _ _ runner =>
        rw [runner]
        exact fun same => by cases same
      | running stage | suspended stage | setting stage | done stage => exact absurd created stage
  refine ⟨kept.guarded, ?_, .runs rfl rfl, fun thread _ _ => outside thread⟩
  cases kept.work with
  | fresh _ awaited _ result unset =>
    exact .running (fun same => by cases same) (by rw [awaited]) rfl (outside caller) result unset
  | running stage | suspended stage | setting stage | done stage => exact absurd created stage

omit [DecidableEq Thread] in
/-- The thread that runs the code may move on without being noticed by the caller. -/
theorem Kept.stands_running (stage : s.stage ≠ .created) (runner : s.runner = some thread)
    (awaited : Config Code Value Exception Result) :
    CallerStands caller { s with awaited := awaited } := by
  cases kept.stands with
  | created created => exact absurd created stage
  | runs stage runner => exact .runs stage runner
  | started stage runner outside => exact .started stage runner outside
  | waits stage runner inside => exact .waits stage runner inside
  | waited stage idle =>
    rw [runner] at idle
    cases idle

/-- The code is run by the thread that has it. -/
theorem Kept.run_step {config : Config Code Value Exception Result}
    {told : List (DirectStyle.Event Request Result)} (runner : s.runner = some thread)
    (step : stackMachine program s.awaited .run = some (config, told)) :
    Kept caller (s.ran thread config) := by
  obtain ⟨code, stack, awaited, performed⟩ := evaluating_of_run step
  cases kept.work with
  | fresh _ _ idle | suspended _ _ idle | done _ _ idle =>
    rw [runner] at idle
    cases idle
  | setting _ ended =>
    rw [awaited] at ended
    cases ended
  | running stage _ runs outside result unset =>
    have same := Option.some.inj (runner.symm.trans runs)
    subst same
    have still (other : Thread) (notCaller : other ≠ caller) : s.event.pc other = .outside := by
      by_cases this : other = thread
      · rw [this]
        exact outside
      · refine kept.others other notCaller fun same => this ?_
        exact (Option.some.inj (runner.symm.trans same)).symm
    rw [State.ran]
    split
    · rename_i mode
      exact ⟨kept.guarded, .running stage mode runner outside result unset,
        kept.stands_running stage runner config, kept.others⟩
    · rename_i mode
      refine ⟨kept.guarded, .suspended stage mode rfl result unset, ?_,
        fun other notCaller _ => still other notCaller⟩
      cases kept.stands with
      | created created => exact absurd created stage
      | runs stage runs =>
        rw [runner] at runs
        cases runs
        exact .started stage (fun same => by cases same) outside
      | started stage _ outside => exact .started stage (fun same => by cases same) outside
      | waits stage _ inside => exact .waits stage (fun same => by cases same) inside
      | waited _ idle =>
        rw [runner] at idle
        cases idle
    · rename_i outcome mode
      have ended : config = ⟨.ended outcome, []⟩ := by
        have equal := congrArg Prod.fst performed
        rw [← show (perform stack (program code)).1 = config from equal] at mode ⊢
        exact stack_of_ended mode
      refine ⟨kept.guarded.move (by rw [outside]; rfl) ?_ ?_ ?_ SyncWaitEvent.set_tells,
        .setting stage ended runner ?_ rfl, ?_, fun other notCaller apart => ?_⟩
      · rw [outside]
        exact fun value same => by cases same
      · exact fun same => by cases same
      · exact fun same => by cases same
      · rw [Monitor.State.setPc_pc_self, Monitor.State.setPc_data, unset]
        exact .lock
      · cases kept.stands with
        | created created => exact absurd created stage
        | runs stage runs => exact .runs stage runs
        | started stage apart here =>
          refine .started stage apart ?_
          rw [Monitor.State.setPc_pc_other]
          · exact here
          · rintro rfl
            exact apart runner
        | waits stage apart here =>
          refine .waits stage apart ?_
          rw [Monitor.State.setPc_pc_other]
          · exact here
          · rintro rfl
            exact apart runner
        | waited _ idle =>
          rw [runner] at idle
          cases idle
      · have different : other ≠ thread := fun same => apart (same ▸ runner)
        rw [Monitor.State.setPc_pc_other _ _ _ different]
        exact still other notCaller

omit [DecidableEq Thread] in
/-- What a step inside the event changes, for the other threads. -/
theorem Kept.elsewhere {event : Monitor.State Thread Bool SyncWaitEvent.Answer}
    (others : ∀ other, other ≠ thread → event.pc other = s.event.pc other ∨
      event.pc other = (s.event.pc other).notified) :
    ∀ other, other ≠ thread → other ≠ caller → s.runner ≠ some other →
      event.pc other = .outside := by
  intro other different notCaller apart
  have outside := kept.others other notCaller apart
  rcases others other different with same | same <;> rw [same, outside]
  rfl

/-- A step of `set`: the caller, if it is another thread, is where it was, or is woken. -/
theorem Kept.set_step {event : Monitor.State Thread Bool SyncWaitEvent.Answer}
    {told : List (Monitor.Event Thread Bool SyncWaitEvent.Answer)}
    {outcome : Outcome Value Exception} (stage : s.stage ≠ .created)
    (awaited : s.awaited = ⟨.ended outcome, []⟩) (runner : s.runner = some thread)
    (result : s.result = some outcome) (inside : Sets (s.event.pc thread) s.event.data)
    (step : Monitor.advance id s.event thread (s.event.pc thread) = some (event, told)) :
    Kept caller ({ s with event := event }.after told) := by
  have guarded := Monitor.guarded_advance kept.guarded step
  -- the thread goes on in `set`
  have onward (others : ∀ other, other ≠ thread → event.pc other = s.event.pc other ∨
        event.pc other = (s.event.pc other).notified)
      (here : Sets (event.pc thread) event.data) : Kept caller { s with event := event } := by
    refine ⟨guarded, .setting stage awaited runner here result, ?_, fun other notCaller apart =>
      kept.elsewhere others other (fun same => apart (same ▸ runner)) notCaller apart⟩
    cases kept.stands with
    | created created => exact absurd created stage
    | runs stage runs => exact .runs stage runs
    | started stage apart outside =>
      refine .started stage apart ?_
      rcases others caller (fun same => apart (same ▸ runner)) with same | same <;>
        rw [same, outside]
      rfl
    | waits stage apart waits =>
      refine .waits stage apart ?_
      rcases others caller (fun same => apart (same ▸ runner)) with same | same <;> rw [same]
      · exact waits
      · exact waits.notified
    | waited _ idle =>
      rw [runner] at idle
      cases idle
  generalize pc : s.event.pc thread = here at inside step
  generalize data : s.event.data = flag at inside
  cases inside with
  | lock =>
    rw [Monitor.advance] at step
    split at step <;> cases step
    refine onward (fun other different => Or.inl (Monitor.State.setPc_pc_other _ _ _ different)) ?_
    rw [Monitor.State.setPc_pc_self, Monitor.State.setPc_data, data]
    exact .store
  | store =>
    rw [Monitor.advance] at step
    cases step
    refine onward (fun other different => Or.inl (Monitor.State.setPc_pc_other _ _ _ different)) ?_
    rw [Monitor.State.setPc_pc_self]
    exact .notify
  | notify =>
    rw [Monitor.advance] at step
    cases step
    refine onward (fun other different => Or.inr (Monitor.State.setPc_pc_other _ _ _ different)) ?_
    rw [Monitor.State.setPc_pc_self]
    show Sets _ s.event.data
    rw [data]
    exact .unlock
  | unlock =>
    rw [Monitor.advance] at step
    cases step
    have apart (other : Thread) (different : other ≠ thread) :
        (Monitor.State.setPc { s.event with mutex := none } thread .outside).pc other =
          s.event.pc other := Monitor.State.setPc_pc_other _ _ _ different
    refine ⟨guarded, .done stage awaited rfl result data, ?_, fun other notCaller _ => ?_⟩
    · cases kept.stands with
      | created created => exact absurd created stage
      | runs stage runs =>
        rw [runner] at runs
        cases runs
        exact .started stage (fun same => by cases same) (Monitor.State.setPc_pc_self _ _ _)
      | started stage other outside =>
        refine .started stage (fun same => by cases same) ?_
        exact (apart caller fun same => other (same ▸ runner)).trans outside
      | waits stage other waits =>
        refine .waits stage (fun same => by cases same) ?_
        show Waits ((Monitor.State.setPc { s.event with mutex := none } thread .outside).pc caller)
        rw [apart caller fun same => other (same ▸ runner)]
        exact waits
      | waited _ idle =>
        rw [runner] at idle
        cases idle
    · by_cases this : other = thread
      · rw [this]
        exact Monitor.State.setPc_pc_self _ _ _
      · refine (apart other this).trans (kept.others other notCaller fun same => this ?_)
        exact (Option.some.inj (runner.symm.trans same)).symm

/-- A step of the caller inside `wait`. It leaves when the code has ended and `set` has returned. -/
theorem Kept.wait_step {event : Monitor.State Thread Bool SyncWaitEvent.Answer}
    {told : List (Monitor.Event Thread Bool SyncWaitEvent.Answer)} (stage : s.stage = .waiting)
    (apart : s.runner ≠ some caller) (waits : Waits (s.event.pc caller))
    (step : Monitor.advance id s.event caller (s.event.pc caller) = some (event, told)) :
    Kept caller ({ s with event := event }.after told) := by
  have guarded := Monitor.guarded_advance kept.guarded step
  have begun : s.stage ≠ .created := by
    rw [stage]
    exact fun same => by cases same
  have onward (others : ∀ other, other ≠ caller → event.pc other = s.event.pc other)
      (data : event.data = s.event.data) (here : Waits (event.pc caller)) :
      Kept caller { s with event := event } := by
    refine ⟨guarded, kept.work.same begun begun rfl rfl rfl data fun other runs => others other ?_,
      .waits stage apart here, fun other notCaller idle =>
        (others other notCaller).trans (kept.others other notCaller idle)⟩
    rintro rfl
    exact apart runs
  generalize pc : s.event.pc caller = here at waits step
  cases waits with
  | waitLock =>
    rw [Monitor.advance] at step
    split at step <;> cases step
    refine onward (fun other different => Monitor.State.setPc_pc_other _ _ _ different) rfl ?_
    rw [Monitor.State.setPc_pc_self]
    exact .test
  | test =>
    rw [Monitor.advance] at step
    split at step <;> cases step <;>
      refine onward (fun other different => Monitor.State.setPc_pc_other _ _ _ different) rfl ?_ <;>
      rw [Monitor.State.setPc_pc_self]
    · exact .leave
    · exact .asleep
  | asleep => cases step
  | leave =>
    have set : s.event.data = true := kept.guarded.leaves caller pc
    have holds : (s.event.pc caller).inside = true := by
      rw [pc]
      rfl
    rw [Monitor.advance] at step
    cases step
    have others (other : Thread) (different : other ≠ caller) :
        (Monitor.State.setPc { s.event with mutex := none } caller .outside).pc other =
          s.event.pc other := Monitor.State.setPc_pc_other _ _ _ different
    cases kept.work with
    | fresh created => exact absurd created begun
    | running _ _ _ _ _ unset | suspended _ _ _ _ unset =>
      rw [set] at unset
      cases unset
    | @setting setter outcome _ _ runner inside =>
      -- the setter would have the mutex as well
      rw [set] at inside
      have same := kept.guarded.alone inside.inside holds
      exact absurd (same ▸ runner) apart
    | done _ awaited idle result _ =>
      exact ⟨guarded, .done (fun same => by cases same) awaited idle result set,
        .waited (Or.inl rfl) idle (Monitor.State.setPc_pc_self _ _ _) set,
        fun other notCaller away => (others other notCaller).trans
          (kept.others other notCaller away)⟩

/-- Only the caller and the thread that runs the code have steps inside the event. -/
theorem Kept.event_step {event : Monitor.State Thread Bool SyncWaitEvent.Answer}
    {told : List (Monitor.Event Thread Bool SyncWaitEvent.Answer)}
    (step : Monitor.advance id s.event thread (s.event.pc thread) = some (event, told)) :
    Kept caller ({ s with event := event }.after told) := by
  have inside : s.event.pc thread ≠ .outside := by
    intro outside
    rw [outside] at step
    cases step
  by_cases runs : s.runner = some thread
  · cases kept.work with
    | fresh _ _ idle | suspended _ _ idle | done _ _ idle =>
      rw [runs] at idle
      cases idle
    | running _ _ runner outside =>
      rw [runs] at runner
      cases runner
      exact absurd outside inside
    | setting stage awaited runner sets result =>
      rw [runs] at runner
      cases runner
      exact kept.set_step stage awaited runs result sets step
  · have isCaller : thread = caller := by
      by_contra notCaller
      exact inside (kept.others thread notCaller runs)
    subst isCaller
    cases kept.stands with
    | created _ outside => exact absurd outside inside
    | runs _ runner => exact absurd runner runs
    | started _ _ outside => exact absurd outside inside
    | waits stage apart waits => exact kept.wait_step stage apart waits step
    | waited _ _ outside => exact absurd outside inside

omit [DecidableEq Thread] in
/-- Only the caller sleeps. -/
theorem Kept.asleep (sleeps : s.event.pc thread = .asleep) :
    thread = caller ∧ s.stage = .waiting ∧ s.runner ≠ some thread := by
  have outside : s.event.pc thread ≠ .outside := by
    rw [sleeps]
    exact fun same => by cases same
  have apart : s.runner ≠ some thread := by
    intro runs
    cases kept.work with
    | fresh _ _ idle | suspended _ _ idle | done _ _ idle =>
      rw [runs] at idle
      cases idle
    | running _ _ runner here =>
      rw [runs] at runner
      cases runner
      exact outside here
    | setting _ _ runner sets =>
      rw [runs] at runner
      cases runner
      rw [sleeps] at sets
      cases sets
  have isCaller : thread = caller := by
    by_contra notCaller
    exact outside (kept.others thread notCaller apart)
  subst isCaller
  refine ⟨rfl, ?_, apart⟩
  cases kept.stands with
  | created _ here | waited _ _ here | started _ _ here => exact absurd here outside
  | runs _ runner => exact absurd runner apart
  | waits stage => exact stage

theorem Kept.wake_step (sleeps : s.event.pc thread = .asleep) :
    Kept caller { s with event := s.event.setPc thread .waitLock } := by
  obtain ⟨rfl, stage, apart⟩ := kept.asleep sleeps
  have others (other : Thread) (different : other ≠ thread) :
      (s.event.setPc thread .waitLock).pc other = s.event.pc other :=
    Monitor.State.setPc_pc_other _ _ _ different
  have begun : s.stage ≠ .created := by
    rw [stage]
    exact fun same => by cases same
  refine ⟨kept.guarded.move (by rw [sleeps]; rfl) ?_ ?_ ?_ trivial,
    kept.work.same begun begun rfl rfl rfl rfl fun other runs => others other ?_,
    .waits stage apart ?_, fun other notCaller idle =>
      (others other notCaller).trans (kept.others other notCaller idle)⟩
  · rw [sleeps]
    exact fun value same => by cases same
  · exact fun same => by cases same
  · exact fun same => by cases same
  · rintro rfl
    exact apart runs
  · rw [Monitor.State.setPc_pc_self]
    exact .waitLock

theorem Kept.enter_wait (stage : s.stage = .started) (apart : s.runner ≠ some caller) :
    Kept caller { s with event := s.event.setPc caller .waitLock, stage := .waiting } := by
  have others (other : Thread) (different : other ≠ caller) :
      (s.event.setPc caller .waitLock).pc other = s.event.pc other :=
    Monitor.State.setPc_pc_other _ _ _ different
  have outside : s.event.pc caller = .outside := by
    cases kept.stands with
    | created created =>
      rw [stage] at created
      cases created
    | runs _ runner => exact absurd runner apart
    | started _ _ outside => exact outside
    | waits waiting =>
      rw [stage] at waiting
      cases waiting
    | waited _ _ outside => exact outside
  have begun : s.stage ≠ .created := by
    rw [stage]
    exact fun same => by cases same
  refine ⟨kept.guarded.move (by rw [outside]; rfl) ?_ ?_ ?_ trivial,
    kept.work.same begun ?_ rfl rfl rfl rfl fun other runs => others other ?_,
    .waits rfl apart ?_, fun other notCaller idle =>
      (others other notCaller).trans (kept.others other notCaller idle)⟩
  · rw [outside]
    exact fun value same => by cases same
  · exact fun same => by cases same
  · exact fun same => by cases same
  · exact fun same => by cases same
  · rintro rfl
    exact apart runs
  · rw [Monitor.State.setPc_pc_self]
    exact .waitLock

omit [DecidableEq Thread] in
/-- Another thread is told of the result, and takes the code on. -/
theorem Kept.complete_step {after : Result → Code} {onward : Code}
    {stack : List (Outcome Value Exception → Code)} (idle : s.runner = none)
    (notCaller : thread ≠ caller) (waiting : s.awaited = ⟨.waiting after, stack⟩) :
    Kept caller
      { s with
        awaited := (⟨.evaluating onward, stack⟩ : Config Code Value Exception Result)
        runner := some thread } := by
  have apart : (some thread : Option Thread) ≠ some caller :=
    fun same => notCaller (Option.some.inj same)
  cases kept.work with
  | fresh _ awaited =>
    rw [waiting] at awaited
    cases awaited
  | running _ mode =>
    rw [waiting] at mode
    cases mode
  | setting _ awaited =>
    rw [waiting] at awaited
    cases awaited
  | done _ awaited =>
    rw [waiting] at awaited
    cases awaited
  | suspended begun _ _ result unset =>
    have outside : s.event.pc thread = .outside := by
      refine kept.others thread notCaller ?_
      rw [idle]
      exact fun same => by cases same
    refine ⟨kept.guarded, .running begun rfl rfl outside result unset, ?_,
      fun other different _ => kept.others other different ?_⟩
    · cases kept.stands with
      | created created => exact absurd created begun
      | runs _ runner =>
        rw [idle] at runner
        cases runner
      | started stage _ outside => exact .started stage apart outside
      | waits stage _ inside => exact .waits stage apart inside
      | waited _ _ _ set =>
        rw [set] at unset
        cases unset
    · rw [idle]
      exact fun same => by cases same

omit [DecidableEq Thread] in
theorem Kept.get_step (outcome : Outcome Value Exception) (stage : s.stage = .waited) :
    Kept caller { s with stage := .returned outcome } := by
  have begun : s.stage ≠ .created := by
    rw [stage]
    exact fun same => by cases same
  refine ⟨kept.guarded, kept.work.same begun ?_ rfl rfl rfl rfl fun _ _ => rfl, ?_, kept.others⟩
  · exact fun same => by cases same
  · cases kept.stands with
    | created created => exact absurd created begun
    | runs started | started started | waits started =>
      rw [stage] at started
      cases started
    | waited _ idle outside set => exact .waited (Or.inr ⟨outcome, rfl⟩) idle outside set

end Steps

section Runs

variable [DecidableEq Thread] {action : Action Thread Result}

theorem kept_step (kept : Kept caller s)
    (step : system program caller s action = some (next, events)) :
    Kept caller next := by
  cases action with
  | start =>
    rw [system] at step
    split at step <;> cases step
    exact kept.start_step ‹_›
  | run =>
    rw [system] at step
    split at step
    · obtain ⟨⟨config, told⟩, ran, same⟩ := Option.map_eq_some_iff.mp step
      cases same
      exact kept.run_step ‹_› ran
    · cases step
  | event thread =>
    rw [system] at step
    obtain ⟨⟨event, told⟩, advanced, same⟩ := Option.map_eq_some_iff.mp step
    cases same
    exact kept.event_step advanced
  | wake thread =>
    rw [system] at step
    obtain ⟨⟨event, told⟩, woken, same⟩ := Option.map_eq_some_iff.mp step
    cases same
    rw [Monitor.system] at woken
    split at woken <;> cases woken
    exact kept.wake_step ‹_›
  | wait =>
    rw [system] at step
    split at step
    · split at step <;> cases step
      exact kept.enter_wait ‹_› ‹_›
    · cases step
  | complete thread result =>
    rw [system] at step
    split at step
    · rename_i other
      obtain ⟨⟨config, told⟩, completed, same⟩ := Option.map_eq_some_iff.mp step
      cases same
      obtain ⟨after, stack, waiting, rfl, rfl⟩ := waiting_of_complete completed
      exact kept.complete_step other.2 other.1 waiting
    · cases step
  | getResult =>
    rw [system] at step
    split at step <;> cases step
    exact kept.get_step _ ‹_›

theorem kept_of_reaches (run : Reaches (system program caller) (start code) s trace) :
    Kept caller s :=
  run.invariant (fun s _ => Kept caller s) (kept_start caller code)
    fun _ _ _ _ _ _ kept step => kept_step kept step

/-! ### What is returned -/

/-- The input and output of a trace. -/
def ios (trace : List (Event Value Exception Request Result)) :
    List (DirectStyle.Event Request Result) :=
  trace.filterMap fun
    | .io event => some event
    | .returned _ => none

omit [DecidableEq Thread] in
theorem ios_append : ios (trace ++ events) = ios trace ++ ios events :=
  List.filterMap_append

omit [DecidableEq Thread] in
theorem ios_map (told : List (DirectStyle.Event Request Result)) :
    ios (told.map .io : List (Event Value Exception Request Result)) = told := by
  rw [ios, List.filterMap_map]
  exact List.filterMap_some

/-- The awaited code has been run by the stack machine, and what has been returned is its end. -/
structure Ran (program : Program Code Value Exception Request Result) (code : Code)
    (s : State Thread Code Value Exception Result)
    (trace : List (Event Value Exception Request Result)) : Prop where
  run : Reaches (stackMachine program) ⟨.evaluating code, []⟩ s.awaited (ios trace)
  returned : ∀ outcome, .returned outcome ∈ trace →
    s.stage = .returned outcome ∧ s.awaited = ⟨.ended outcome, []⟩

omit [DecidableEq Thread] in
/-- A step without input or output after which nothing has been returned. -/
theorem Ran.silent (ran : Ran program code s trace) (awaited : next.awaited = s.awaited)
    (stage : ∀ outcome, s.stage = .returned outcome → next.stage = .returned outcome) :
    Ran program code next (trace ++ []) := by
  rw [List.append_nil]
  refine ⟨awaited ▸ ran.run, fun outcome member => ?_⟩
  obtain ⟨before, ended⟩ := ran.returned outcome member
  exact ⟨stage outcome before, awaited.trans ended⟩

omit [DecidableEq Thread] in
/-- An instruction of the code, or a result. -/
theorem Ran.machine (ran : Ran program code s trace) {action : DirectStyle.Action Result}
    {told : List (DirectStyle.Event Request Result)}
    (step : stackMachine program s.awaited action = some (next.awaited, told)) :
    Ran program code next (trace ++ told.map .io) where
  run := by
    rw [ios_append, ios_map]
    exact .next ran.run step
  returned outcome member := by
    rcases List.mem_append.mp member with old | new
    · rw [(ran.returned outcome old).2] at step
      cases action <;> cases step
    · obtain ⟨_, _, same⟩ := List.mem_map.mp new
      cases same

theorem State.ran_awaited (thread : Thread) (config : Config Code Value Exception Result) :
    (s.ran thread config).awaited = config := by
  rw [State.ran]
  split <;> rfl

omit [DecidableEq Thread] in
theorem State.after_awaited (told : List (Monitor.Event Thread Bool SyncWaitEvent.Answer)) :
    (s.after told).awaited = s.awaited := by
  rw [State.after.eq_def]
  split <;> rfl

/-- When the call has returned, nothing touches the event or the coroutine: no step is possible. -/
theorem Kept.gone {outcome : Outcome Value Exception} (kept : Kept caller s)
    (stage : s.stage = .returned outcome) (action : Action Thread Result) :
    system program caller s action = none := by
  have begun : s.stage ≠ .created := by
    rw [stage]
    exact fun same => by cases same
  obtain ⟨runner, outside, set⟩ : s.runner = none ∧ s.event.pc caller = .outside ∧
      s.event.data = true := by
    cases kept.stands with
    | created created => exact absurd created begun
    | runs started | started started | waits started =>
      rw [stage] at started
      cases started
    | waited _ runner outside set => exact ⟨runner, outside, set⟩
  have everywhere (thread : Thread) : s.event.pc thread = .outside := by
    by_cases this : thread = caller
    · rw [this]
      exact outside
    · refine kept.others thread this ?_
      rw [runner]
      exact fun same => by cases same
  cases action with
  | start | wait | getResult => rw [system, stage]
  | run => rw [system, runner]
  | event thread =>
    rw [system, everywhere]
    rfl
  | wake thread =>
    rw [system, Monitor.system, everywhere]
    rfl
  | complete thread result =>
    rw [system]
    split
    · cases kept.work with
      | fresh created => exact absurd created begun
      | running _ _ _ _ _ unset | suspended _ _ _ _ unset =>
        rw [set] at unset
        cases unset
      | setting _ _ some =>
        rw [runner] at some
        cases some
      | done _ awaited =>
        rw [awaited]
        rfl
    · rfl

omit [DecidableEq Thread] in
/-- What the promise keeps is the end of the code. -/
theorem Kept.awaited_of_result {outcome : Outcome Value Exception} (kept : Kept caller s)
    (result : s.result = some outcome) :
    s.awaited = ⟨.ended outcome, []⟩ := by
  cases kept.work with
  | fresh _ _ _ none | running _ _ _ _ none | suspended _ _ _ none =>
    rw [result] at none
    cases none
  | setting _ awaited _ _ some | done _ awaited _ some =>
    rw [result] at some
    cases some
    exact awaited

theorem ran_step (kept : Kept caller s) (ran : Ran program code s trace)
    (step : system program caller s action = some (next, events)) :
    Ran program code next (trace ++ events) := by
  have open_ (outcome : Outcome Value Exception) : s.stage ≠ .returned outcome := by
    intro stage
    rw [kept.gone stage] at step
    cases step
  cases action with
  | start =>
    rw [system] at step
    split at step <;> cases step
    exact ran.silent rfl fun outcome stage => absurd stage (open_ outcome)
  | run =>
    rw [system] at step
    split at step
    · rename_i thread _
      obtain ⟨⟨config, told⟩, performed, same⟩ := Option.map_eq_some_iff.mp step
      cases same
      have moved : stackMachine program s.awaited .run =
          some ((s.ran thread config).awaited, told) := by
        rw [State.ran_awaited]
        exact performed
      exact ran.machine moved
    · cases step
  | event thread =>
    rw [system] at step
    obtain ⟨⟨event, told⟩, _, same⟩ := Option.map_eq_some_iff.mp step
    cases same
    exact ran.silent (State.after_awaited told) fun outcome stage => absurd stage (open_ outcome)
  | wake thread =>
    rw [system] at step
    obtain ⟨⟨event, told⟩, _, same⟩ := Option.map_eq_some_iff.mp step
    cases same
    exact ran.silent rfl fun outcome stage => stage
  | wait =>
    rw [system] at step
    split at step
    · split at step <;> cases step
      exact ran.silent rfl fun outcome stage => absurd stage (open_ outcome)
    · cases step
  | complete thread result =>
    rw [system] at step
    split at step
    · obtain ⟨⟨config, told⟩, completed, same⟩ := Option.map_eq_some_iff.mp step
      cases same
      exact ran.machine completed
    · cases step
  | getResult =>
    rw [system] at step
    split at step <;> rename_i outcome stage result <;> cases step
    refine ⟨?_, fun _ member => ?_⟩
    · rw [ios_append]
      show Reaches _ _ s.awaited (ios trace ++ [])
      rw [List.append_nil]
      exact ran.run
    · rcases List.mem_append.mp member with old | new
      · exact absurd (ran.returned _ old).1 (open_ _)
      · cases List.mem_singleton.mp new
        exact ⟨rfl, kept.awaited_of_result result⟩

theorem ran_of_reaches (run : Reaches (system program caller) (start code) s trace) :
    Ran program code s trace :=
  run.invariant (fun s trace => Ran program code s trace)
    ⟨.start, fun _ member => absurd member List.not_mem_nil⟩
    fun _ _ _ _ _ before ran step => ran_step (kept_of_reaches before) ran step

/-- What the caller of `sync_wait` may rely on. -/
structure Correct (program : Program Code Value Exception Request Result) (caller : Thread)
    (code : Code) (s : State Thread Code Value Exception Result)
    (trace : List (Event Value Exception Request Result)) : Prop where
  /-- What is returned, or thrown, is what the awaited code ends with, after the input and output
  that has been done. -/
  outcome : ∀ outcome, .returned outcome ∈ trace →
    Reaches (stackMachine program) ⟨.evaluating code, []⟩ ⟨.ended outcome, []⟩ (ios trace)
  /-- Nobody has a step after that: no thread is still in the code or in the event. -/
  gone : ∀ outcome, .returned outcome ∈ trace → ∀ action, system program caller s action = none

/-- Whichever threads are told of results, and wherever they are interrupted. -/
theorem sync_wait_correct (run : Reaches (system program caller) (start code) s trace) :
    Correct program caller code s trace where
  outcome outcome member := by
    have ran := ran_of_reaches run
    rw [← (ran.returned outcome member).2]
    exact ran.run
  gone outcome member :=
    (kept_of_reaches run).gone ((ran_of_reaches run).returned outcome member).1

/-! ### How long it takes -/

/-- The steps of `set` that are left. -/
def setSteps : Monitor.Pc Bool SyncWaitEvent.Answer → Nat
  | .lock _ => 4
  | .store _ => 3
  | .notify _ => 2
  | .unlock _ => 1
  | _ => 0

/-- The steps of `wait` that are left, and those of the caller behind it. The flag may be found
unset once more. -/
def waitSteps (flag : Bool) : Monitor.Pc Bool SyncWaitEvent.Answer → Nat
  | .waitLock => if flag then 4 else 7
  | .test => if flag then 3 else 6
  | .asleep => 5
  | .leave => 2
  | _ => 0

/-- A wakeup may have no reason. -/
def Action.wakes : Action Thread Result → Nat
  | .wake _ => 1
  | _ => 0

def wakeups : List (Action Thread Result) → Nat
  | [] => 0
  | action :: rest => action.wakes + wakeups rest

def runnerSteps (s : State Thread Code Value Exception Result) : Nat :=
  match s.runner with
  | some thread => setSteps (s.event.pc thread)
  | none => 0

def callerSteps (caller : Thread) (s : State Thread Code Value Exception Result) : Nat :=
  match s.stage with
  | .created => 0
  | .started => 8
  | .waiting => waitSteps s.event.data (s.event.pc caller)
  | .waited => 1
  | .returned _ => 0

omit [DecidableEq Thread] in
theorem setSteps_le (pc : Monitor.Pc Bool SyncWaitEvent.Answer) : setSteps pc ≤ 4 := by
  cases pc <;> simp [setSteps]

omit [DecidableEq Thread] in
theorem waitSteps_le (flag : Bool) (pc : Monitor.Pc Bool SyncWaitEvent.Answer) :
    waitSteps flag pc ≤ 7 := by
  cases pc <;> cases flag <;> simp [waitSteps]

omit [DecidableEq Thread] in
/-- A flag that is set, and a notification, only shorten the way. -/
theorem waitSteps_set (flag : Bool) (pc : Monitor.Pc Bool SyncWaitEvent.Answer) :
    waitSteps true pc ≤ waitSteps flag pc := by
  cases pc <;> cases flag <;> simp [waitSteps]

omit [DecidableEq Thread] in
theorem waitSteps_notified (pc : Monitor.Pc Bool SyncWaitEvent.Answer) :
    waitSteps true pc.notified ≤ waitSteps true pc := by
  cases pc <;> simp [waitSteps, Monitor.Pc.notified]

omit [DecidableEq Thread] in
theorem steps_le (s : State Thread Code Value Exception Result) :
    runnerSteps s + callerSteps caller s ≤ 12 := by
  have runner : runnerSteps s ≤ 4 := by
    rw [runnerSteps]
    split
    · exact setSteps_le _
    · exact Nat.zero_le _
  have waiter : callerSteps caller s ≤ 8 := by
    rw [callerSteps]
    split
    · exact Nat.zero_le _
    · exact Nat.le_refl _
    · exact Nat.le_succ_of_le (waitSteps_le _ _)
    · decide
    · exact Nat.zero_le _
  omega

omit [DecidableEq Thread] in
theorem callerSteps_le (stage : next.stage = s.stage) (waits : s.stage = .waiting →
      waitSteps next.event.data (next.event.pc caller) ≤
        waitSteps s.event.data (s.event.pc caller)) :
    callerSteps caller next ≤ callerSteps caller s := by
  rw [callerSteps, callerSteps, stage]
  generalize s.stage = place at waits
  cases place with
  | waiting => exact waits rfl
  | _ => exact Nat.le_refl _

omit [DecidableEq Thread] in
theorem runnerSteps_le (runner : next.runner = s.runner)
    (same : ∀ thread, s.runner = some thread → next.event.pc thread = s.event.pc thread) :
    runnerSteps next ≤ runnerSteps s := by
  rw [runnerSteps, runnerSteps, runner]
  generalize s.runner = place at same
  cases place with
  | none => exact Nat.le_refl _
  | some thread =>
    exact Nat.le_of_eq (congrArg setSteps (same thread rfl))

/-- A step of `set`: one step less is left, and no other thread is held up. -/
structure SetStep (thread : Thread) (event next : Monitor.State Thread Bool SyncWaitEvent.Answer)
    (told : List (Monitor.Event Thread Bool SyncWaitEvent.Answer)) : Prop where
  onward : setSteps (next.pc thread) < setSteps (event.pc thread)
  others : ∀ other, other ≠ thread →
    waitSteps next.data (next.pc other) ≤ waitSteps event.data (event.pc other)
  told : told = [] ∨ ∃ value, told = [.returned thread (some value)]

theorem setStep_of_advance {event next : Monitor.State Thread Bool SyncWaitEvent.Answer}
    {told : List (Monitor.Event Thread Bool SyncWaitEvent.Answer)}
    (inside : Sets (event.pc thread) event.data)
    (step : Monitor.advance id event thread (event.pc thread) = some (next, told)) :
    SetStep thread event next told := by
  generalize pc : event.pc thread = here at inside step
  generalize data : event.data = flag at inside
  cases inside with
  | lock =>
    rw [Monitor.advance] at step
    split at step <;> cases step
    refine ⟨?_, fun other different => ?_, Or.inl rfl⟩
    · rw [Monitor.State.setPc_pc_self, pc]
      exact Nat.lt_succ_self 3
    · exact Nat.le_of_eq (congrArg (waitSteps event.data)
        (Monitor.State.setPc_pc_other _ _ _ different))
  | store =>
    rw [Monitor.advance] at step
    cases step
    refine ⟨?_, fun other different => ?_, Or.inl rfl⟩
    · rw [Monitor.State.setPc_pc_self, pc]
      exact Nat.lt_succ_self 2
    · rw [Monitor.State.setPc_pc_other _ _ _ different, Monitor.State.setPc_data]
      exact waitSteps_set _ _
  | notify =>
    rw [Monitor.advance] at step
    cases step
    refine ⟨?_, fun other different => ?_, Or.inl rfl⟩
    · rw [Monitor.State.setPc_pc_self, pc]
      exact Nat.lt_succ_self 1
    · rw [Monitor.State.setPc_pc_other _ _ _ different, Monitor.State.setPc_data]
      show waitSteps event.data (event.pc other).notified ≤ _
      rw [data]
      exact waitSteps_notified _
  | unlock =>
    rw [Monitor.advance] at step
    cases step
    refine ⟨?_, fun other different => ?_, Or.inr ⟨_, rfl⟩⟩
    · rw [Monitor.State.setPc_pc_self, pc]
      exact Nat.lt_succ_self 0
    · exact Nat.le_of_eq (congrArg (waitSteps event.data)
        (Monitor.State.setPc_pc_other _ _ _ different))

/-- A step of `wait`: one step less is left, and no other thread notices. -/
structure WaitStep (thread : Thread) (event next : Monitor.State Thread Bool SyncWaitEvent.Answer)
    (told : List (Monitor.Event Thread Bool SyncWaitEvent.Answer)) : Prop where
  onward : told = [] ∧
      waitSteps next.data (next.pc thread) < waitSteps event.data (event.pc thread) ∨
    told = [.returned thread none] ∧ 1 < waitSteps event.data (event.pc thread)
  others : ∀ other, other ≠ thread → next.pc other = event.pc other

theorem waitStep_of_advance {event next : Monitor.State Thread Bool SyncWaitEvent.Answer}
    {told : List (Monitor.Event Thread Bool SyncWaitEvent.Answer)}
    (waits : Waits (event.pc thread))
    (step : Monitor.advance id event thread (event.pc thread) = some (next, told)) :
    WaitStep thread event next told := by
  generalize pc : event.pc thread = here at waits step
  cases waits with
  | waitLock =>
    rw [Monitor.advance] at step
    split at step <;> cases step
    refine ⟨Or.inl ⟨rfl, ?_⟩, fun other different => Monitor.State.setPc_pc_other _ _ _ different⟩
    rw [Monitor.State.setPc_pc_self, Monitor.State.setPc_data, pc]
    show waitSteps event.data .test < waitSteps event.data .waitLock
    cases event.data <;> decide
  | test =>
    rw [Monitor.advance] at step
    split at step <;> rename_i found <;> cases step <;>
      refine ⟨Or.inl ⟨rfl, ?_⟩,
        fun other different => Monitor.State.setPc_pc_other _ _ _ different⟩ <;>
      rw [Monitor.State.setPc_pc_self, Monitor.State.setPc_data, pc]
    · cases event.data <;> decide
    · show waitSteps event.data .asleep < waitSteps event.data .test
      rw [show event.data = false from Bool.not_eq_true _ ▸ found]
      decide
  | asleep => cases step
  | leave =>
    rw [Monitor.advance] at step
    cases step
    refine ⟨Or.inr ⟨rfl, ?_⟩, fun other different => Monitor.State.setPc_pc_other _ _ _ different⟩
    rw [pc]
    exact Nat.lt_succ_self 1

section Ended

variable (kept : Kept caller s)
include kept

omit [DecidableEq Thread] in
/-- The caller does not wait while it runs the code. -/
theorem Kept.runner_ne (waiting : s.stage = .waiting) : s.runner ≠ some caller := by
  cases kept.stands with
  | created stage | runs stage | started stage =>
    rw [waiting] at stage
    cases stage
  | waits _ apart => exact apart
  | waited _ idle =>
    rw [idle]
    exact fun same => by cases same

/-- `set` goes on, and does not hold up the caller. -/
theorem Kept.set_steps {event : Monitor.State Thread Bool SyncWaitEvent.Answer}
    {told : List (Monitor.Event Thread Bool SyncWaitEvent.Answer)}
    (runner : s.runner = some thread) (inside : Sets (s.event.pc thread) s.event.data)
    (step : Monitor.advance id s.event thread (s.event.pc thread) = some (event, told)) :
    runnerSteps ({ s with event := event }.after told) +
      callerSteps caller ({ s with event := event }.after told) <
        runnerSteps s + callerSteps caller s := by
  have goes := setStep_of_advance inside step
  have before : runnerSteps s = setSteps (s.event.pc thread) := by
    rw [runnerSteps, runner]
  refine Nat.add_lt_add_of_lt_of_le ?_ ?_
  · rw [before]
    rcases goes.told with rfl | ⟨value, rfl⟩
    · show runnerSteps { s with event := event } < _
      rw [runnerSteps, runner]
      exact goes.onward
    · exact Nat.lt_of_le_of_lt (Nat.zero_le _) goes.onward
  · have apart (waiting : s.stage = .waiting) : caller ≠ thread := fun same =>
      kept.runner_ne waiting (same ▸ runner)
    rcases goes.told with rfl | ⟨value, rfl⟩ <;>
      exact callerSteps_le rfl fun waiting => goes.others caller (apart waiting)

omit kept in
/-- `wait` goes on. -/
theorem wait_steps {event : Monitor.State Thread Bool SyncWaitEvent.Answer}
    {told : List (Monitor.Event Thread Bool SyncWaitEvent.Answer)} (stage : s.stage = .waiting)
    (apart : s.runner ≠ some caller) (waits : Waits (s.event.pc caller))
    (step : Monitor.advance id s.event caller (s.event.pc caller) = some (event, told)) :
    runnerSteps ({ s with event := event }.after told) +
      callerSteps caller ({ s with event := event }.after told) <
        runnerSteps s + callerSteps caller s := by
  have goes := waitStep_of_advance waits step
  have before : callerSteps caller s = waitSteps s.event.data (s.event.pc caller) := by
    rw [callerSteps, stage]
  have others (thread : Thread) (runs : s.runner = some thread) :
      event.pc thread = s.event.pc thread := goes.others thread fun same => apart (same ▸ runs)
  rcases goes.onward with ⟨rfl, onward⟩ | ⟨rfl, onward⟩ <;>
    refine Nat.add_lt_add_of_le_of_lt (runnerSteps_le rfl others) ?_ <;> rw [before]
  · show callerSteps caller { s with event := event } < _
    rw [callerSteps, stage]
    exact onward
  · exact onward

/-- When the code has ended, every step brings the caller closer to its return, but for wakeups
without a reason. -/
theorem Kept.steps_lt {outcome : Outcome Value Exception} {action : Action Thread Result}
    (ended : s.awaited.mode = .ended outcome)
    (step : system program caller s action = some (next, events)) :
    next.awaited = s.awaited ∧
      runnerSteps next + callerSteps caller next <
        runnerSteps s + callerSteps caller s + 3 * action.wakes := by
  have begun : s.stage ≠ .created := by
    intro created
    cases kept.work with
    | fresh _ awaited =>
      rw [awaited] at ended
      cases ended
    | running stage | suspended stage | setting stage | done stage => exact stage created
  cases action with
  | start =>
    rw [system] at step
    split at step <;> cases step
    exact absurd ‹_› begun
  | run =>
    rw [system] at step
    split at step
    · obtain ⟨⟨config, told⟩, performed, _⟩ := Option.map_eq_some_iff.mp step
      obtain ⟨code, stack, awaited, _⟩ := evaluating_of_run performed
      rw [awaited] at ended
      cases ended
    · cases step
  | event thread =>
    rw [system] at step
    obtain ⟨⟨event, told⟩, advanced, same⟩ := Option.map_eq_some_iff.mp step
    cases same
    refine ⟨State.after_awaited told, ?_⟩
    have inside : s.event.pc thread ≠ .outside := by
      intro outside
      rw [outside] at advanced
      cases advanced
    by_cases runs : s.runner = some thread
    · cases kept.work with
      | fresh created => exact absurd created begun
      | running _ mode | suspended _ mode =>
        rw [ended] at mode
        cases mode
      | setting _ _ runner sets =>
        rw [runs] at runner
        cases runner
        exact kept.set_steps runs sets advanced
      | done _ _ idle =>
        rw [runs] at idle
        cases idle
    · have isCaller : thread = caller := by
        by_contra notCaller
        exact inside (kept.others thread notCaller runs)
      subst isCaller
      cases kept.stands with
      | created created => exact absurd created begun
      | runs _ runner => exact absurd runner runs
      | started _ _ outside | waited _ _ outside => exact absurd outside inside
      | waits stage apart waits => exact wait_steps stage apart waits advanced
  | wake thread =>
    rw [system] at step
    obtain ⟨⟨event, told⟩, woken, same⟩ := Option.map_eq_some_iff.mp step
    cases same
    rw [Monitor.system] at woken
    split at woken <;> rename_i sleeps <;> cases woken
    obtain ⟨rfl, stage, apart⟩ := kept.asleep sleeps
    refine ⟨rfl, ?_⟩
    have runner : runnerSteps { s with event := s.event.setPc thread .waitLock } ≤ runnerSteps s :=
      runnerSteps_le rfl fun other runs =>
        Monitor.State.setPc_pc_other _ _ _ fun same => apart (same ▸ runs)
    have before : callerSteps thread s = 5 := by
      rw [callerSteps, stage]
      show waitSteps _ _ = 5
      rw [sleeps]
      rfl
    have after : callerSteps thread { s with event := s.event.setPc thread .waitLock } ≤ 7 := by
      rw [callerSteps, stage]
      exact waitSteps_le _ _
    rw [before]
    show _ < runnerSteps s + 5 + 3
    omega
  | wait =>
    rw [system] at step
    split at step
    · split at step <;> rename_i stage apart <;> cases step
      have runner :
          runnerSteps { s with event := s.event.setPc caller .waitLock, stage := .waiting } ≤
            runnerSteps s :=
        runnerSteps_le rfl fun other runs =>
          Monitor.State.setPc_pc_other _ _ _ fun same => apart (same ▸ runs)
      have before : callerSteps caller s = 8 := by
        rw [callerSteps, stage]
      refine ⟨rfl, ?_⟩
      rw [before]
      show _ < runnerSteps s + 8
      exact Nat.add_lt_add_of_le_of_lt runner (Nat.lt_succ_of_le (waitSteps_le _ _))
    · cases step
  | complete thread result =>
    rw [system] at step
    split at step
    · obtain ⟨⟨config, told⟩, completed, _⟩ := Option.map_eq_some_iff.mp step
      obtain ⟨after, stack, awaited, _⟩ := waiting_of_complete completed
      rw [awaited] at ended
      cases ended
    · cases step
  | getResult =>
    rw [system] at step
    split at step <;> rename_i stage _ <;> cases step
    refine ⟨rfl, ?_⟩
    have before : callerSteps caller s = 1 := by
      rw [callerSteps, stage]
    rw [before]
    exact Nat.lt_succ_self _

end Ended

theorem length_of_execute {outcome : Outcome Value Exception}
    {schedule : List (Action Thread Result)} (kept : Kept caller s)
    (ended : s.awaited.mode = .ended outcome)
    (executed : execute (system program caller) s schedule = some (next, events)) :
    schedule.length + runnerSteps next + callerSteps caller next ≤
      runnerSteps s + callerSteps caller s + 3 * wakeups schedule := by
  induction schedule generalizing s events with
  | nil =>
    cases executed
    rw [wakeups, List.length_nil]
    omega
  | cons action schedule inductionHypothesis =>
    obtain ⟨middle, told, later, step, onward, rfl⟩ := cons_of_execute executed
    obtain ⟨awaited, less⟩ := kept.steps_lt ended step
    have rest := inductionHypothesis (kept_step kept step) (awaited ▸ ended) onward
    rw [List.length_cons, wakeups]
    omega

/-- Where no thread of the program has a step, the call has returned, or the caller sleeps and the
awaited code waits for a result. -/
theorem Kept.stuck (kept : Kept caller s)
    (none : ∀ action : Action Thread Result, (∀ thread, action ≠ .wake thread) →
      (∀ thread result, action ≠ .complete thread result) →
      system program caller s action = none) :
    (∃ outcome, s.stage = .returned outcome) ∨
      s.event.pc caller = .asleep ∧ ∃ after, s.awaited.mode = .waiting after := by
  have noStart := none .start (fun _ same => by cases same) (fun _ _ same => by cases same)
  have noRun := none .run (fun _ same => by cases same) (fun _ _ same => by cases same)
  have noWait := none .wait (fun _ same => by cases same) (fun _ _ same => by cases same)
  have noGet := none .getResult (fun _ same => by cases same) (fun _ _ same => by cases same)
  have atRest : ∀ thread, s.event.pc thread = .outside ∨
      s.event.pc thread = .asleep ∧ s.event.data = false := by
    refine kept.guarded.stuck fun thread => ?_
    have here := none (.event thread) (fun _ same => by cases same) fun _ _ same => by cases same
    rw [system] at here
    exact Option.map_eq_none_iff.mp here
  cases kept.work with
  | fresh stage =>
    rw [system, stage] at noStart
    cases noStart
  | @running thread code stage mode runner =>
    rw [system, runner] at noRun
    have performed := Option.map_eq_none_iff.mp noRun
    generalize s.awaited = config at mode performed
    obtain ⟨_, stack⟩ := config
    cases mode
    cases performed
  | @suspended after stage mode runner _ unset =>
    refine Or.inr ⟨?_, after, mode⟩
    cases kept.stands with
    | created created => exact absurd created stage
    | runs _ runs =>
      rw [runner] at runs
      cases runs
    | started started apart =>
      rw [system, started] at noWait
      dsimp only at noWait
      rw [if_neg apart] at noWait
      cases noWait
    | waits _ _ inside =>
      rcases atRest caller with outside | sleeps
      · rw [outside] at inside
        cases inside
      · exact sleeps.1
    | waited _ _ _ set =>
      rw [set] at unset
      cases unset
  | @setting thread _ _ _ _ inside =>
    rcases atRest thread with outside | sleeps
    · rw [outside] at inside
      cases inside
    · rw [sleeps.1] at inside
      cases inside
  | done stage _ runner result set =>
    refine Or.inl ?_
    cases kept.stands with
    | created created => exact absurd created stage
    | runs _ runs =>
      rw [runner] at runs
      cases runs
    | started started apart =>
      rw [system, started] at noWait
      dsimp only at noWait
      rw [if_neg apart] at noWait
      cases noWait
    | waits _ _ inside =>
      rcases atRest caller with outside | sleeps
      · rw [outside] at inside
        cases inside
      · rw [sleeps.2] at set
        cases set
    | waited place =>
      rcases place with waited | returned
      · rw [system, waited, result] at noGet
        cases noGet
      · exact returned

/-- The call comes to its return. -/
structure Returns (program : Program Code Value Exception Request Result) (caller : Thread)
    (s : State Thread Code Value Exception Result) : Prop where
  /-- Nobody waits for anybody but for a result of input or output. -/
  stuck : (∀ action : Action Thread Result, (∀ thread, action ≠ .wake thread) →
      (∀ thread result, action ≠ .complete thread result) →
      system program caller s action = none) →
    (∃ outcome, s.stage = .returned outcome) ∨
      s.event.pc caller = .asleep ∧ ∃ after, s.awaited.mode = .waiting after
  /-- When the code has ended, there are at most twelve steps, and three more for each wakeup
  without a reason. -/
  bounded : ∀ outcome, s.awaited.mode = .ended outcome → ∀ schedule next events,
    execute (system program caller) s schedule = some (next, events) →
    schedule.length ≤ 12 + 3 * wakeups schedule

/-- Under any schedule, from wherever a run has come to. -/
theorem sync_wait_returns (run : Reaches (system program caller) (start code) s trace) :
    Returns program caller s where
  stuck := (kept_of_reaches run).stuck
  bounded outcome ended schedule next events executed := by
    have length := length_of_execute (kept_of_reaches run) ended executed
    have most : runnerSteps s + callerSteps caller s ≤ 12 := steps_le s
    omega

end Runs

/-! ### A run -/

section Example

/-- Code that returns the result of one request. -/
def fetch : Program (Option Nat) Nat Empty Unit Nat
  | none => .io () some
  | some result => .ret result

/-- The caller (`false`) falls asleep before another thread is told of the result. -/
def fetching : List (Action Bool Nat) :=
  [.start, .run, .wait, .event false, .event false, .complete true 5, .run]

/-- The other thread sets the event, and the caller returns. -/
def returning : List (Action Bool Nat) :=
  [.event true, .event true, .event true, .event true, .event false, .event false, .event false,
    .getResult]

theorem sync_wait_correct_fetch : ∃ s,
    execute (system fetch false) (start none) (fetching ++ returning) =
      some (s, [.io (.requested ()), .io (.completed 5), .returned (.value 5)]) ∧
    Reaches (stackMachine fetch) ⟨.evaluating none, []⟩ ⟨.ended (.value 5), []⟩
      [.requested (), .completed 5] := by
  have traced : (execute (system fetch false) (start none) (fetching ++ returning)).map
      (fun reached => reached.2) =
        some [.io (.requested ()), .io (.completed 5), .returned (.value 5)] := rfl
  obtain ⟨⟨s, _⟩, executed, rfl⟩ := Option.map_eq_some_iff.mp traced
  exact ⟨s, executed, (sync_wait_correct (reaches_of_execute executed)).outcome _ (by simp)⟩

theorem sync_wait_returns_fetch : ∃ s,
    execute (system fetch false) (start none) fetching =
      some (s, [.io (.requested ()), .io (.completed 5)]) ∧
    ∀ schedule next events, execute (system fetch false) s schedule = some (next, events) →
      schedule.length ≤ 12 + 3 * wakeups schedule := by
  have traced : (execute (system fetch false) (start none) fetching).map
      (fun reached => (reached.1.awaited.mode, reached.2)) =
        some (.ended (.value 5), [.io (.requested ()), .io (.completed 5)]) := rfl
  obtain ⟨⟨s, _⟩, executed, same⟩ := Option.map_eq_some_iff.mp traced
  obtain ⟨ended, rfl⟩ := Prod.mk.inj same
  exact ⟨s, executed, (sync_wait_returns (reaches_of_execute executed)).bounded _ ended⟩

end Example

end SyncWait

end Sheep
