/-
This file says what the life of one session is, apart from all others: it waits in
the queue, one worker takes it, sets its io_service and resumes it, and from then on
it belongs to this worker. What the handler does in the first resume decides whether
the worker comes to know of the session: a session that is suspended when the resume
returns goes to the coroutine list, and a session that is done does not.
-/

import Sheep.Sessions

namespace Sheep

namespace Sessions

/-- Where a session is. After the first resume its worker stands at the test of `done()`: then a
suspended session is `returned`, and one that is done is `unlisted`, and after the test `leaked`. A
session that has ended in a later resume is in the coroutine list. -/
inductive Life (n : Nat)
  | unborn
  | queued
  | taken (worker : Fin n)
  | ready (worker : Fin n)
  | running (worker : Fin n) (first : Bool)
  | returned (worker : Fin n)
  | suspended (worker : Fin n)
  | unlisted (worker : Fin n)
  | leaked (worker : Fin n)
  | ended (worker : Fin n)
  | destroyed (worker : Fin n)
deriving DecidableEq, Repr

/-- What can happen to a session. -/
inductive Turn (n : Nat)
  | submit
  | take (worker : Fin n)
  | setIoService
  | resume
  | awaitIo
  | finish
  | testDone
  | destroy

variable {n : Nat} {session : Nat} {life : Life n} {trace : List (Event n)}

/-- The life of a session. -/
def lifeOf (session : Nat) : Transitions.System (Life n) (Turn n) (Event n)
  | .unborn, .submit => some (.queued, [.submitted session])
  | .queued, .take worker => some (.taken worker, [])
  | .taken worker, .setIoService => some (.ready worker, [])
  | .ready worker, .resume => some (.running worker true, [.resumed worker session true])
  | .running worker true, .awaitIo => some (.returned worker, [.awaited session])
  | .running worker true, .finish => some (.unlisted worker, [.ended session true])
  | .returned worker, .testDone => some (.suspended worker, [])
  | .unlisted worker, .testDone => some (.leaked worker, [])
  | .suspended worker, .resume => some (.running worker false, [.resumed worker session false])
  | .running worker false, .awaitIo => some (.suspended worker, [.awaited session])
  | .running worker false, .finish => some (.ended worker, [.ended session false])
  | .ended worker, .destroy => some (.destroyed worker, [.destroyed worker session])
  | _, _ => none

/-! ### What has been seen of a life -/

/-- The worker that has started the session. -/
def Life.owner : Life n → Option (Fin n)
  | .unborn | .queued | .taken _ | .ready _ => none
  | .running worker _ | .returned worker | .suspended worker | .unlisted worker | .leaked worker
  | .ended worker | .destroyed worker => some worker

/-- The handler has awaited an operation. -/
def Life.hasAwaited : Life n → Bool
  | .running _ false | .returned _ | .suspended _ | .ended _ | .destroyed _ => true
  | .unborn | .queued | .taken _ | .ready _ | .running _ true | .unlisted _ | .leaked _ => false

/-- The coroutine has come to its final suspend point. -/
def Life.isDone : Life n → Bool
  | .unlisted _ | .leaked _ | .ended _ | .destroyed _ => true
  | .unborn | .queued | .taken _ | .ready _ | .running _ _ | .returned _ | .suspended _ => false

def Life.isDestroyed : Life n → Bool
  | .destroyed _ => true
  | _ => false

/-- The event is the first resume of the session. -/
def Event.starts (session : Nat) : Event n → Bool
  | .resumed _ other true => other = session
  | _ => false

/-- The event destroys the frame of the session. -/
def Event.destroys (session : Nat) : Event n → Bool
  | .destroyed _ other => other = session
  | _ => false

/-- What a trace tells of a session. -/
structure Tells (session : Nat) (trace : List (Event n)) (life : Life n) : Prop where
  defined : Event.undefined session ∉ trace
  owner : ∀ worker first, Event.resumed worker session first ∈ trace → life.owner = some worker
  started : trace.countP (Event.starts session) = life.owner.isSome.toNat
  awaited : Event.awaited session ∈ trace ↔ life.hasAwaited = true
  isDone : (∃ first, Event.ended session first ∈ trace) ↔ life.isDone = true
  destroyed : trace.countP (Event.destroys session) = life.isDestroyed.toNat
  last : trace.Pairwise fun earlier _ => ∀ worker, earlier ≠ .destroyed worker session

theorem tells_start : Tells session [] (.unborn : Life n) where
  defined := List.not_mem_nil
  owner _ _ member := absurd member List.not_mem_nil
  started := rfl
  awaited := ⟨fun member => absurd member List.not_mem_nil, fun same => Bool.noConfusion same⟩
  isDone := ⟨fun ⟨_, member⟩ => absurd member List.not_mem_nil, fun same => Bool.noConfusion same⟩
  destroyed := rfl
  last := List.Pairwise.nil

/-! ### One turn -/

section

variable {turn : Turn n} {next : Life n} {events : List (Event n)}

theorem undefined_of_turn (step : lifeOf session life turn = some (next, events)) :
    Event.undefined session ∉ events := by
  cases life <;> cases turn <;> (try cases ‹Bool›) <;> cases step <;> simp

/-- A session that has an owner keeps it. -/
theorem owner_of_turn (step : lifeOf session life turn = some (next, events)) {worker : Fin n}
    (owner : life.owner = some worker) : next.owner = some worker := by
  cases life <;> cases turn <;> (try cases ‹Bool›) <;> cases step <;>
    first | exact owner | cases owner

/-- The worker that resumes a session is its owner. -/
theorem resumed_of_turn (step : lifeOf session life turn = some (next, events)) {worker : Fin n}
    {first : Bool} (resumed : Event.resumed worker session first ∈ events) :
    next.owner = some worker := by
  cases life <;> cases turn <;> (try cases ‹Bool›) <;> cases step <;>
    simp_all [Life.owner]

theorem started_of_turn (step : lifeOf session life turn = some (next, events)) :
    next.owner.isSome.toNat =
      life.owner.isSome.toNat + events.countP (Event.starts session) := by
  cases life <;> cases turn <;> (try cases ‹Bool›) <;> cases step <;>
    simp [Life.owner, Event.starts]

theorem awaited_of_turn (step : lifeOf session life turn = some (next, events)) :
    next.hasAwaited = true ↔ life.hasAwaited = true ∨ Event.awaited session ∈ events := by
  cases life <;> cases turn <;> (try cases ‹Bool›) <;> cases step <;> simp [Life.hasAwaited]

theorem isDone_of_turn (step : lifeOf session life turn = some (next, events)) :
    next.isDone = true ↔
      life.isDone = true ∨ ∃ first, Event.ended session first ∈ events := by
  cases life <;> cases turn <;> (try cases ‹Bool›) <;> cases step <;> simp [Life.isDone]

theorem destroyed_of_turn (step : lifeOf session life turn = some (next, events)) :
    next.isDestroyed.toNat =
      life.isDestroyed.toNat + events.countP (Event.destroys session) := by
  cases life <;> cases turn <;> (try cases ‹Bool›) <;> cases step <;>
    simp [Life.isDestroyed, Event.destroys]

/-- A life does not go on when the frame has been destroyed. -/
theorem isDestroyed_of_turn (step : lifeOf session life turn = some (next, events)) :
    life.isDestroyed = false := by
  cases life with
  | destroyed => cases turn <;> cases step
  | _ => rfl

theorem length_of_turn (step : lifeOf session life turn = some (next, events)) :
    events.length ≤ 1 := by
  cases life <;> cases turn <;> (try cases ‹Bool›) <;> cases step <;> simp

/-! ### A whole life -/

theorem Tells.not_destroyed (tells : Tells session trace life) (alive : life.isDestroyed = false)
    (worker : Fin n) : Event.destroyed worker session ∉ trace := by
  intro member
  have none := tells.destroyed
  rw [alive] at none
  exact List.countP_eq_zero.mp none _ member (decide_eq_true rfl)

theorem tells_turn (tells : Tells session trace life)
    (step : lifeOf session life turn = some (next, events)) :
    Tells session (trace ++ events) next where
  defined member := by
    rcases List.mem_append.mp member with before | now
    · exact tells.defined before
    · exact undefined_of_turn step now
  owner worker first member := by
    rcases List.mem_append.mp member with before | now
    · exact owner_of_turn step (tells.owner worker first before)
    · exact resumed_of_turn step now
  started := by rw [List.countP_append, tells.started, started_of_turn step]
  awaited := by rw [List.mem_append, tells.awaited, awaited_of_turn step]
  isDone := by
    rw [isDone_of_turn step, ← tells.isDone]
    simp only [List.mem_append, exists_or]
  destroyed := by rw [List.countP_append, tells.destroyed, destroyed_of_turn step]
  last := by
    refine List.pairwise_append.mpr ⟨tells.last, ?_, ?_⟩
    · match events, length_of_turn step with
      | [], _ => exact List.Pairwise.nil
      | [_], _ => exact List.pairwise_singleton _ _
    · intro earlier member _ _ worker same
      exact tells.not_destroyed (isDestroyed_of_turn step) worker (same ▸ member)

end

/-- Whatever happens to a session, its trace tells where it is. -/
theorem tells_of_reaches (run : Transitions.Reaches (lifeOf session) .unborn life trace) :
    Tells session trace life :=
  run.invariant (fun life trace => Tells session trace life) tells_start
    fun _ _ _ _ _ _ tells step => tells_turn tells step

/-- A session that is done has been destroyed or is on the way to it, or it has not awaited any
operation. -/
theorem place_of_isDone (isDone : life.isDone = true) :
    (∃ worker, life = .ended worker ∨ life = .destroyed worker) ∧ life.hasAwaited = true ∨
      (∃ worker, life = .unlisted worker ∨ life = .leaked worker) ∧ life.hasAwaited = false := by
  cases life with
  | unlisted worker => exact .inr ⟨⟨worker, .inl rfl⟩, rfl⟩
  | leaked worker => exact .inr ⟨⟨worker, .inr rfl⟩, rfl⟩
  | ended worker => exact .inl ⟨⟨worker, .inl rfl⟩, rfl⟩
  | destroyed worker => exact .inl ⟨⟨worker, .inr rfl⟩, rfl⟩
  | _ => cases isDone

end Sessions

end Sheep
