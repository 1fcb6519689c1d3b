/-
This file is a library for monitors: data that one mutex guards, and a condition
variable on which threads wait until the data are ready.

A thread that waits tests the data while it has the mutex. It falls asleep and
gives the mutex back in one step; it wakes when somebody notifies all, or for no
reason, takes the mutex and tests again. No wakeup is lost where every update
that makes the data ready notifies before it gives the mutex back.
-/

import Mathlib.Logic.Function.Basic
import Sheep.Transitions

namespace Monitor

/-- A critical section that does not wait: it reads the data, changes them, and may wake all who
sleep. -/
structure Update (Data Value : Type) where
  answer : Data → Value
  change : Data → Data
  notifies : Bool

inductive Op (Data Value : Type)
  | enter (update : Update Data Value)
  | wait

/-- Where a thread stands. -/
inductive Pc (Data Value : Type)
  | outside
  | lock (update : Update Data Value)
  | store (update : Update Data Value)
  | notify (value : Value)
  | unlock (value : Value)
  | waitLock
  | test
  | asleep
  | leave

structure State (Thread Data Value : Type) where
  data : Data
  mutex : Option Thread
  pc : Thread → Pc Data Value

/-- A wait returns nothing. -/
inductive Event (Thread Data Value : Type)
  | called (thread : Thread) (op : Op Data Value)
  | returned (thread : Thread) (value : Option Value)

inductive Action (Thread Data Value : Type)
  | call (thread : Thread) (op : Op Data Value)
  | step (thread : Thread)
  | wake (thread : Thread)

variable {Thread Data Value : Type}

def start (data : Data) : State Thread Data Value where
  data := data
  mutex := none
  pc _ := .outside

def Op.entry : Op Data Value → Pc Data Value
  | .enter update => .lock update
  | .wait => .waitLock

/-- The thread has the mutex. -/
def Pc.inside : Pc Data Value → Bool
  | .store _ | .notify _ | .unlock _ | .test | .leave => true
  | _ => false

/-- What a notification makes of a thread. -/
def Pc.notified : Pc Data Value → Pc Data Value
  | .asleep => .waitLock
  | pc => pc

/-- Where an update goes on when it has changed the data. -/
def Update.stored (update : Update Data Value) (value : Value) : Pc Data Value :=
  if update.notifies then .notify value else .unlock value

/-- Everybody who sleeps is woken. -/
def State.notifyAll (s : State Thread Data Value) : State Thread Data Value :=
  { s with pc := fun thread => (s.pc thread).notified }

variable [DecidableEq Thread]

def State.setPc (s : State Thread Data Value) (thread : Thread) (pc : Pc Data Value) :
    State Thread Data Value :=
  { s with pc := Function.update s.pc thread pc }

section SetPc

variable (s : State Thread Data Value) (thread : Thread) (pc : Pc Data Value)

@[simp] theorem State.setPc_data : (s.setPc thread pc).data = s.data := rfl

@[simp] theorem State.setPc_mutex : (s.setPc thread pc).mutex = s.mutex := rfl

@[simp] theorem State.setPc_pc_self : (s.setPc thread pc).pc thread = pc :=
  Function.update_self ..

theorem State.setPc_pc_other {other : Thread} (different : other ≠ thread) :
    (s.setPc thread pc).pc other = s.pc other := Function.update_of_ne different ..

end SetPc

/-- One step of a thread inside an operation. -/
def advance (ready : Data → Bool) (s : State Thread Data Value) (thread : Thread) :
    Pc Data Value → Option (State Thread Data Value × List (Event Thread Data Value))
  | .outside => none
  | .lock update =>
      if s.mutex = none then
        some ({ s with mutex := some thread }.setPc thread (.store update), [])
      else none
  | .store update =>
      some ({ s with data := update.change s.data }.setPc thread
        (update.stored (update.answer s.data)), [])
  | .notify value => some (s.notifyAll.setPc thread (.unlock value), [])
  | .unlock value =>
      some ({ s with mutex := none }.setPc thread .outside, [.returned thread (some value)])
  | .waitLock =>
      if s.mutex = none then some ({ s with mutex := some thread }.setPc thread .test, [])
      else none
  | .test =>
      if ready s.data then some (s.setPc thread .leave, [])
      else some ({ s with mutex := none }.setPc thread .asleep, [])
  | .asleep => none
  | .leave => some ({ s with mutex := none }.setPc thread .outside, [.returned thread none])

/-- The monitor under any number of threads. -/
def system (ready : Data → Bool) :
    Transitions.System (State Thread Data Value) (Action Thread Data Value)
      (Event Thread Data Value)
  | s, .call thread op =>
      match s.pc thread with
      | .outside => some (s.setPc thread op.entry, [.called thread op])
      | _ => none
  | s, .step thread => advance ready s thread (s.pc thread)
  | s, .wake thread =>
      match s.pc thread with
      | .asleep => some (s.setPc thread .waitLock, [])
      | _ => none

/-! ### The invariant -/

/-- An update that makes the data ready notifies. -/
def Update.Tells (ready : Data → Bool) (update : Update Data Value) : Prop :=
  ∀ data, ready data = false → ready (update.change data) = true → update.notifies = true

/-- The thread is inside an update, and the update tells. -/
def Pc.Tells (ready : Data → Bool) : Pc Data Value → Prop
  | .lock update => update.Tells ready
  | .store update => update.Tells ready
  | _ => True

/-- Only updates that tell are called. -/
def Allowed (ready : Data → Bool) (_ : State Thread Data Value) :
    Action Thread Data Value → Prop
  | .call _ op => op.entry.Tells ready
  | _ => True

/-- One thread has the mutex, the one inside; who sleeps has nothing to wake for, or is going to be
notified; and who leaves has found the data ready. -/
structure Guarded (ready : Data → Bool) (s : State Thread Data Value) : Prop where
  holder : ∀ thread, s.mutex = some thread ↔ (s.pc thread).inside = true
  asleep : ∀ thread, s.pc thread = .asleep →
    ready s.data = false ∨ ∃ other value, s.pc other = .notify value
  leaves : ∀ thread, s.pc thread = .leave → ready s.data = true
  tells : ∀ thread, (s.pc thread).Tells ready

variable {ready : Data → Bool} {s next : State Thread Data Value} {thread other : Thread}
  {events trace : List (Event Thread Data Value)}

omit [DecidableEq Thread] in
/-- Mutual exclusion. -/
theorem Guarded.alone (guarded : Guarded ready s) (first : (s.pc thread).inside = true)
    (second : (s.pc other).inside = true) : thread = other := by
  have one := (guarded.holder thread).mpr first
  have two := (guarded.holder other).mpr second
  exact Option.some.inj (one.symm.trans two)

omit [DecidableEq Thread] in
theorem guarded_start (data : Data) : Guarded ready (start data : State Thread Data Value) :=
  ⟨fun _ => ⟨nofun, nofun⟩, nofun, nofun, fun _ => trivial⟩

section Steps

variable (guarded : Guarded ready s)
include guarded

/-- A thread moves on without the mutex changing hands. -/
theorem Guarded.move {pc : Pc Data Value} (inside : pc.inside = (s.pc thread).inside)
    (quiet : ∀ value, s.pc thread ≠ .notify value) (awake : pc ≠ .asleep)
    (leaves : pc = .leave → ready s.data = true) (tells : pc.Tells ready) :
    Guarded ready (s.setPc thread pc) := by
  refine ⟨fun other => ?_, fun other sleeps => ?_, fun other left => ?_, fun other => ?_⟩ <;>
    by_cases this : other = thread
  · subst this
    rw [State.setPc_pc_self, inside]
    exact guarded.holder other
  · rw [State.setPc_pc_other _ _ _ this]
    exact guarded.holder other
  · subst this
    rw [State.setPc_pc_self] at sleeps
    exact absurd sleeps awake
  · rw [State.setPc_pc_other _ _ _ this] at sleeps
    refine (guarded.asleep other sleeps).imp_right fun ⟨notifier, value, notifies⟩ =>
      ⟨notifier, value, ?_⟩
    have still : notifier ≠ thread := by
      rintro rfl
      exact quiet value notifies
    rw [State.setPc_pc_other _ _ _ still]
    exact notifies
  · subst this
    rw [State.setPc_pc_self] at left
    exact leaves left
  · rw [State.setPc_pc_other _ _ _ this] at left
    exact guarded.leaves other left
  · subst this
    rw [State.setPc_pc_self]
    exact tells
  · rw [State.setPc_pc_other _ _ _ this]
    exact guarded.tells other

/-- A thread takes the mutex. -/
theorem Guarded.take {pc : Pc Data Value} (free : s.mutex = none) (inside : pc.inside = true)
    (before : pc ≠ .leave) (tells : pc.Tells ready) :
    Guarded ready ({ s with mutex := some thread }.setPc thread pc) := by
  have outside (other : Thread) : (s.pc other).inside ≠ true := fun holds => by
    rw [(guarded.holder other).mpr holds] at free
    cases free
  refine ⟨fun other => ?_, fun other sleeps => ?_, fun other left => ?_, fun other => ?_⟩ <;>
    by_cases this : other = thread
  · subst this
    rw [State.setPc_pc_self, inside]
    exact iff_of_true rfl rfl
  · rw [State.setPc_pc_other _ _ _ this]
    exact iff_of_false (fun same => this (Option.some.inj same).symm) (outside other)
  · subst this
    rw [State.setPc_pc_self] at sleeps
    rw [sleeps] at inside
    cases inside
  · rw [State.setPc_pc_other _ _ _ this] at sleeps
    refine (guarded.asleep other sleeps).imp_right fun ⟨notifier, value, notifies⟩ => ?_
    exact absurd (by rw [notifies]; rfl) (outside notifier)
  · subst this
    rw [State.setPc_pc_self] at left
    exact absurd left before
  · rw [State.setPc_pc_other _ _ _ this] at left
    exact absurd (by rw [show s.pc other = .leave from left]; rfl) (outside other)
  · subst this
    rw [State.setPc_pc_self]
    exact tells
  · rw [State.setPc_pc_other _ _ _ this]
    exact guarded.tells other

/-- A thread gives the mutex back; it falls asleep only where the data are not ready. -/
theorem Guarded.give {pc : Pc Data Value} (holds : (s.pc thread).inside = true)
    (quiet : ∀ value, s.pc thread ≠ .notify value) (outside : pc.inside = false)
    (sleeps : pc = .asleep → ready s.data = false) (tells : pc.Tells ready) :
    Guarded ready ({ s with mutex := none }.setPc thread pc) := by
  refine ⟨fun other => ?_, fun other sleeps' => ?_, fun other left => ?_, fun other => ?_⟩ <;>
    by_cases this : other = thread
  · subst this
    rw [State.setPc_pc_self, outside]
    exact iff_of_false nofun nofun
  · rw [State.setPc_pc_other _ _ _ this]
    exact iff_of_false nofun fun inside => this (guarded.alone inside holds)
  · subst this
    rw [State.setPc_pc_self] at sleeps'
    exact Or.inl (sleeps sleeps')
  · rw [State.setPc_pc_other _ _ _ this] at sleeps'
    rcases guarded.asleep other sleeps' with early | ⟨notifier, value, notifies⟩
    · exact Or.inl early
    · have same := guarded.alone (by rw [notifies]; rfl : (s.pc notifier).inside = true) holds
      subst same
      exact absurd notifies (quiet value)
  · subst this
    rw [State.setPc_pc_self] at left
    rw [left] at outside
    cases outside
  · rw [State.setPc_pc_other _ _ _ this] at left
    exact guarded.leaves other left
  · subst this
    rw [State.setPc_pc_self]
    exact tells
  · rw [State.setPc_pc_other _ _ _ this]
    exact guarded.tells other

/-- An update changes the data. Nobody can be leaving, and who sleeps is told. -/
theorem Guarded.store {update : Update Data Value} {value : Value}
    (pc : s.pc thread = .store update) :
    Guarded ready ({ s with data := update.change s.data }.setPc thread (update.stored value)) := by
  have holds : (s.pc thread).inside = true := by
    rw [pc]
    rfl
  have inside : (update.stored value).inside = true := by
    rw [Update.stored]
    split <;> rfl
  refine ⟨fun other => ?_, fun other sleeps => ?_, fun other left => ?_, fun other => ?_⟩ <;>
    by_cases this : other = thread
  · subst this
    rw [State.setPc_pc_self, inside]
    exact iff_of_true ((guarded.holder other).mpr holds) rfl
  · rw [State.setPc_pc_other _ _ _ this]
    exact guarded.holder other
  · subst this
    rw [State.setPc_pc_self] at sleeps
    rw [sleeps] at inside
    cases inside
  · rw [State.setPc_pc_other _ _ _ this] at sleeps
    have early : ready s.data = false := by
      refine (guarded.asleep other sleeps).resolve_right fun ⟨notifier, value, notifies⟩ => ?_
      have same := guarded.alone (by rw [notifies]; rfl : (s.pc notifier).inside = true) holds
      rw [same, pc] at notifies
      cases notifies
    cases late : ready (update.change s.data) with
    | false => exact Or.inl late
    | true =>
      have tells := guarded.tells thread
      rw [pc] at tells
      refine Or.inr ⟨thread, value, ?_⟩
      rw [State.setPc_pc_self, Update.stored, if_pos (tells s.data early late)]
  · subst this
    rw [State.setPc_pc_self, Update.stored] at left
    split at left <;> cases left
  · rw [State.setPc_pc_other _ _ _ this] at left
    exact absurd (guarded.alone (by rw [show s.pc other = .leave from left]; rfl) holds) this
  · subst this
    rw [State.setPc_pc_self, Update.stored]
    split <;> trivial
  · rw [State.setPc_pc_other _ _ _ this]
    exact guarded.tells other

/-- Everybody is woken. -/
theorem Guarded.notify {value : Value} (pc : s.pc thread = .notify value) :
    Guarded ready (s.notifyAll.setPc thread (.unlock value)) := by
  have holds : (s.pc thread).inside = true := by
    rw [pc]
    rfl
  have inside (pc : Pc Data Value) : pc.notified.inside = pc.inside := by
    cases pc <;> rfl
  have awake (pc : Pc Data Value) : pc.notified ≠ .asleep := by
    cases pc <;> nofun
  refine ⟨fun other => ?_, fun other sleeps => ?_, fun other left => ?_, fun other => ?_⟩ <;>
    by_cases this : other = thread
  · subst this
    rw [State.setPc_pc_self]
    exact iff_of_true ((guarded.holder other).mpr holds) rfl
  · rw [State.setPc_pc_other _ _ _ this]
    show s.mutex = some other ↔ (s.pc other).notified.inside = true
    rw [inside]
    exact guarded.holder other
  · subst this
    rw [State.setPc_pc_self] at sleeps
    cases sleeps
  · rw [State.setPc_pc_other _ _ _ this] at sleeps
    exact absurd sleeps (awake _)
  · subst this
    rw [State.setPc_pc_self] at left
    cases left
  · rw [State.setPc_pc_other _ _ _ this] at left
    have inner : (s.pc other).inside = true := by
      rw [← inside, show (s.pc other).notified = .leave from left]
      rfl
    exact absurd (guarded.alone inner holds) this
  · subst this
    rw [State.setPc_pc_self]
    trivial
  · rw [State.setPc_pc_other _ _ _ this]
    show (s.pc other).notified.Tells ready
    have tells := guarded.tells other
    cases at_pc : s.pc other <;> rw [at_pc] at tells <;> exact tells

theorem guarded_advance
    (step : advance ready s thread (s.pc thread) = some (next, events)) : Guarded ready next := by
  have tells := guarded.tells thread
  cases pc : s.pc thread with
  | outside | asleep =>
    rw [pc] at step
    cases step
  | lock update =>
    rw [pc, advance] at step
    rw [pc] at tells
    split at step <;> cases step
    exact guarded.take ‹_› rfl nofun tells
  | store update =>
    rw [pc, advance] at step
    cases step
    exact guarded.store pc
  | notify value =>
    rw [pc, advance] at step
    cases step
    exact guarded.notify pc
  | unlock value =>
    rw [pc, advance] at step
    cases step
    exact guarded.give (by rw [pc]; rfl) (by rw [pc]; nofun) rfl nofun trivial
  | waitLock =>
    rw [pc, advance] at step
    split at step <;> cases step
    exact guarded.take ‹_› rfl nofun trivial
  | test =>
    rw [pc, advance] at step
    split at step <;> rename_i found <;> cases step
    · exact guarded.move (by rw [pc]; rfl) (by rw [pc]; nofun) nofun (fun _ => found) trivial
    · exact guarded.give (by rw [pc]; rfl) (by rw [pc]; nofun) rfl
        (fun _ => Bool.not_eq_true _ ▸ found) trivial
  | leave =>
    rw [pc, advance] at step
    cases step
    exact guarded.give (by rw [pc]; rfl) (by rw [pc]; nofun) rfl nofun trivial

theorem guarded_step {action : Action Thread Data Value} (allowed : Allowed ready s action)
    (step : system ready s action = some (next, events)) : Guarded ready next := by
  cases action with
  | step thread => exact guarded_advance guarded step
  | call thread op =>
    rw [system] at step
    split at step <;> rename_i pc <;> cases step
    refine guarded.move ?_ (by rw [pc]; nofun) ?_ ?_ allowed
    · rw [pc]
      cases op <;> rfl
    · cases op <;> exact fun same => by cases same
    · cases op <;> exact fun same => by cases same
  | wake thread =>
    rw [system] at step
    split at step <;> rename_i pc <;> cases step
    exact guarded.move (by rw [pc]; rfl) (by rw [pc]; nofun) nofun nofun trivial

/-- Where no thread has a step, everybody is outside, or sleeps because the data are not ready. -/
theorem Guarded.stuck (none : ∀ thread, advance ready s thread (s.pc thread) = none) :
    ∀ thread, s.pc thread = .outside ∨ s.pc thread = .asleep ∧ ready s.data = false := by
  have outside (thread : Thread) : (s.pc thread).inside ≠ true := by
    intro inside
    have here := none thread
    cases pc : s.pc thread <;> rw [pc] at inside here <;> rw [advance] at here
    case test => split at here <;> cases here
    case store | notify | unlock | leave => cases here
    case outside | lock | waitLock | asleep => cases inside
  have free : s.mutex = Option.none := by
    cases mutex : s.mutex with
    | none => rfl
    | some holder => exact absurd ((guarded.holder holder).mp mutex) (outside holder)
  intro thread
  have here := none thread
  cases pc : s.pc thread with
  | outside => exact Or.inl rfl
  | asleep =>
    refine Or.inr ⟨rfl, (guarded.asleep thread pc).resolve_right fun ⟨other, value, notifies⟩ => ?_⟩
    exact outside other (by rw [notifies]; rfl)
  | lock update | waitLock =>
    rw [pc, advance, if_pos free] at here
    cases here
  | _ => exact absurd (by rw [pc]; rfl) (outside thread)

end Steps

/-- In every run of updates that tell, the monitor is guarded. -/
theorem guarded_of_reachesBy {data : Data}
    (run : Transitions.ReachesBy (Allowed ready) (system ready) (start data) s trace) :
    Guarded ready s :=
  run.invariant (fun s _ => Guarded ready s) (guarded_start data)
    fun _ _ _ _ _ _ guarded allowed step => guarded_step guarded allowed step

end Monitor
