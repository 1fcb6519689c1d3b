/-
This file proves where the completions of `io_service` go. An entry of the ring
gets the address of a resume handle only when its awaitable is awaited, and it is
the user data at the time of the submission that the kernel gives back. So long as
no entry is submitted before its awaitable is awaited, every operation that is on
its way (in the ring, in the kernel or in the completion queue) and is awaited
carries the address of the handle of the coroutine that awaits it, and no two of
them carry the same.

The accounts of a run are kept over the list of all operations that are on their
way. A submission and a completion only permute it.
-/

import Mathlib.Data.List.Nodup
import Mathlib.Data.List.Perm.Basic
import Sheep.IoService

namespace Sheep

namespace IoService

variable {Address Coroutine : Type}

/-! ### Operations on their way -/

/-- Where the loop over the completions stands. -/
def State.position (s : State Address Coroutine) : Nat :=
  match s.rounds with
  | .loop head _ :: _ => head
  | _ => s.khead

/-- The completions that no loop has come to. -/
def State.unread (s : State Address Coroutine) : List (Sqe Address) :=
  (s.cqes.drop s.position).map Cqe.sqe

/-- All operations that are on their way: prepared, in the kernel, or completed and not read. -/
def State.carried (s : State Address Coroutine) (entries : Nat) : List (Sqe Address) :=
  s.ring entries ++ (s.inFlight ++ s.unread)

/-! ### Histories -/

/-- The coroutines that have awaited an awaitable. -/
def awaits (awaitable : Nat) (trace : List (Event Address Coroutine)) : List Coroutine :=
  trace.filterMap fun
    | .awaited other coroutine => if other = awaitable then some coroutine else none
    | _ => none

/-- What an operation has been completed with. -/
def completions (operation : Nat) (trace : List (Event Address Coroutine)) : List Int :=
  trace.filterMap fun
    | .completed other res => if other = operation then some res else none
    | _ => none

/-- The coroutines that have been resumed for an awaitable, with what they were given. -/
def resumptions (awaitable : Nat) (trace : List (Event Address Coroutine)) :
    List (Coroutine × Int) :=
  trace.filterMap fun
    | .resumed other coroutine res => if other = awaitable then some (coroutine, res) else none
    | _ => none

theorem awaits_append (awaitable : Nat) (trace events : List (Event Address Coroutine)) :
    awaits awaitable (trace ++ events) = awaits awaitable trace ++ awaits awaitable events :=
  List.filterMap_append

theorem completions_append (operation : Nat) (trace events : List (Event Address Coroutine)) :
    completions operation (trace ++ events) =
      completions operation trace ++ completions operation events :=
  List.filterMap_append

theorem resumptions_append (awaitable : Nat) (trace events : List (Event Address Coroutine)) :
    resumptions awaitable (trace ++ events) =
      resumptions awaitable trace ++ resumptions awaitable events :=
  List.filterMap_append

theorem mem_awaits {awaitable : Nat} {coroutine : Coroutine}
    {trace : List (Event Address Coroutine)} :
    coroutine ∈ awaits awaitable trace ↔ .awaited awaitable coroutine ∈ trace := by
  unfold awaits
  rw [List.mem_filterMap]
  constructor
  · rintro ⟨event, member, same⟩
    split at same
    · split at same
      · rename_i equal
        cases same
        rw [← equal]
        exact member
      · cases same
    · cases same
  · intro member
    exact ⟨_, member, if_pos rfl⟩

theorem mem_resumptions {awaitable : Nat} {coroutine : Coroutine} {res : Int}
    {trace : List (Event Address Coroutine)}
    (member : .resumed awaitable coroutine res ∈ trace) :
    (coroutine, res) ∈ resumptions awaitable trace :=
  List.mem_filterMap.mpr ⟨_, member, if_pos rfl⟩

section Histories

variable (awaitable operation : Nat) (coroutine : Coroutine) (res : Int)
  (trace : List (Event Address Coroutine))

theorem awaits_awaited : awaits awaitable (trace ++ [.awaited awaitable coroutine]) =
    awaits awaitable trace ++ [coroutine] := by
  rw [awaits_append]
  simp only [awaits, List.filterMap_cons, if_true, List.filterMap_nil]

theorem awaits_awaited_other {other : Nat} (different : other ≠ awaitable) :
    awaits other (trace ++ [.awaited awaitable coroutine]) = awaits other trace := by
  rw [awaits_append]
  simp only [awaits, List.filterMap_cons, if_neg different.symm, List.filterMap_nil,
    List.append_nil]

theorem resumptions_awaited : resumptions operation (trace ++ [.awaited awaitable coroutine]) =
    resumptions operation trace := by
  rw [resumptions_append]
  exact List.append_nil _

theorem completions_awaited : completions operation (trace ++ [.awaited awaitable coroutine]) =
    completions operation trace := by
  rw [completions_append]
  exact List.append_nil _

theorem awaits_resumed : awaits operation (trace ++ [.resumed awaitable coroutine res]) =
    awaits operation trace := by
  rw [awaits_append]
  exact List.append_nil _

theorem resumptions_resumed : resumptions awaitable (trace ++ [.resumed awaitable coroutine res]) =
    resumptions awaitable trace ++ [(coroutine, res)] := by
  rw [resumptions_append]
  simp only [resumptions, List.filterMap_cons, if_true, List.filterMap_nil]

theorem resumptions_resumed_other {other : Nat} (different : other ≠ awaitable) :
    resumptions other (trace ++ [.resumed awaitable coroutine res]) = resumptions other trace := by
  rw [resumptions_append]
  simp only [resumptions, List.filterMap_cons, if_neg different.symm, List.filterMap_nil,
    List.append_nil]

theorem completions_resumed : completions operation (trace ++ [.resumed awaitable coroutine res]) =
    completions operation trace := by
  rw [completions_append]
  exact List.append_nil _

end Histories

/-! ### Accounts -/

/-- The accounts of a run: what is on its way, who waits for it, and who has been resumed. -/
structure Accounts (carried : List (Sqe Address)) (awaited : List Nat)
    (handles : Address → Option (Nat × Coroutine)) (trace : List (Event Address Coroutine)) :
    Prop where
  distinct : (carried.map Sqe.operation).Nodup
  tagged : ∀ sqe ∈ carried, sqe.operation ∈ awaited →
    ∃ address coroutine, sqe.userData = some address ∧
      handles address = some (sqe.operation, coroutine)
  pending : ∀ address awaitable coroutine, handles address = some (awaitable, coroutine) →
    ⟨awaitable, some address⟩ ∈ carried ∧ awaits awaitable trace = [coroutine] ∧
      resumptions awaitable trace = []
  settled : ∀ awaitable ∈ awaited,
    (∃ address coroutine, handles address = some (awaitable, coroutine)) ∨
    ∃ coroutine res, awaits awaitable trace = [coroutine] ∧
      resumptions awaitable trace = [(coroutine, res)] ∧ completions awaitable trace = [res]
  untouched : ∀ awaitable, awaitable ∉ awaited →
    awaits awaitable trace = [] ∧ resumptions awaitable trace = []
  safe : ∀ address, .dangling address ∉ trace

variable {carried other : List (Sqe Address)} {awaited : List Nat}
  {handles : Address → Option (Nat × Coroutine)} {trace : List (Event Address Coroutine)}

/-- It does not matter where on its way an operation is. -/
theorem Accounts.perm (accounts : Accounts carried awaited handles trace)
    (same : carried.Perm other) : Accounts other awaited handles trace where
  distinct := (same.map Sqe.operation).nodup_iff.mp accounts.distinct
  tagged sqe member := accounts.tagged sqe (same.mem_iff.mpr member)
  pending address awaitable coroutine handle := by
    obtain ⟨member, rest⟩ := accounts.pending address awaitable coroutine handle
    exact ⟨same.mem_iff.mp member, rest⟩
  settled := accounts.settled
  untouched := accounts.untouched
  safe := accounts.safe

/-- A new operation, which nobody awaits yet. -/
theorem Accounts.prepare (accounts : Accounts carried awaited handles trace) {sqe : Sqe Address}
    (new : sqe.operation ∉ carried.map Sqe.operation) (unawaited : sqe.operation ∉ awaited) :
    Accounts (sqe :: carried) awaited handles (trace ++ [.created sqe.operation]) where
  distinct := List.nodup_cons.mpr ⟨new, accounts.distinct⟩
  tagged other member isAwaited := by
    rcases List.mem_cons.mp member with rfl | member
    · exact absurd isAwaited unawaited
    · exact accounts.tagged other member isAwaited
  pending address awaitable coroutine handle := by
    obtain ⟨member, awaitedBy, unresumed⟩ := accounts.pending address awaitable coroutine handle
    rw [awaits_append, resumptions_append, awaitedBy, unresumed]
    exact ⟨List.mem_cons_of_mem _ member, rfl, rfl⟩
  settled awaitable isAwaited := by
    rw [awaits_append, resumptions_append, completions_append]
    simpa only [awaits, resumptions, completions, List.filterMap_cons_none, List.filterMap_nil,
      List.append_nil] using accounts.settled awaitable isAwaited
  untouched awaitable notAwaited := by
    obtain ⟨noAwait, noResume⟩ := accounts.untouched awaitable notAwaited
    rw [awaits_append, resumptions_append, noAwait, noResume]
    exact ⟨rfl, rfl⟩
  safe address member := by
    rcases List.mem_append.mp member with member | member
    · exact accounts.safe address member
    · cases List.mem_singleton.mp member

/-- The kernel completes an operation. -/
theorem Accounts.complete (accounts : Accounts carried awaited handles trace) {operation : Nat}
    (res : Int) (uncompleted : completions operation trace = []) :
    Accounts carried awaited handles (trace ++ [.completed operation res]) where
  distinct := accounts.distinct
  tagged := accounts.tagged
  pending address awaitable coroutine handle := by
    obtain ⟨member, awaitedBy, unresumed⟩ := accounts.pending address awaitable coroutine handle
    rw [awaits_append, resumptions_append, awaitedBy, unresumed]
    exact ⟨member, rfl, rfl⟩
  settled awaitable isAwaited := by
    refine (accounts.settled awaitable isAwaited).imp_right ?_
    rintro ⟨coroutine, given, awaitedBy, resumed, completed⟩
    have elsewhere : operation ≠ awaitable := by
      intro same
      rw [same, completed] at uncompleted
      cases uncompleted
    refine ⟨coroutine, given, ?_, ?_, ?_⟩
    · rw [awaits_append, awaitedBy]
      rfl
    · rw [resumptions_append, resumed]
      rfl
    · rw [completions_append, completed]
      simp only [completions, List.filterMap_cons, if_neg elsewhere, List.filterMap_nil,
        List.append_nil]
  untouched awaitable notAwaited := by
    obtain ⟨noAwait, noResume⟩ := accounts.untouched awaitable notAwaited
    rw [awaits_append, resumptions_append, noAwait, noResume]
    exact ⟨rfl, rfl⟩
  safe address member := by
    rcases List.mem_append.mp member with member | member
    · exact accounts.safe address member
    · cases List.mem_singleton.mp member

/-- What `await_suspend` does to the operations on their way. -/
def tag (awaitable : Nat) (address : Address) (sqe : Sqe Address) : Sqe Address :=
  if sqe.operation = awaitable then { sqe with userData := some address } else sqe

theorem tag_operation (awaitable : Nat) (address : Address) (sqe : Sqe Address) :
    (tag awaitable address sqe).operation = sqe.operation := by
  unfold tag
  split <;> rfl

/-- No two handles wait for one operation. -/
theorem Accounts.single (accounts : Accounts carried awaited handles trace)
    {place address : Address} {awaitable : Nat} {first second : Coroutine}
    (here : handles place = some (awaitable, first))
    (there : handles address = some (awaitable, second)) : place = address := by
  have one := (accounts.pending place awaitable first here).1
  have two := (accounts.pending address awaitable second there).1
  have same := List.inj_on_of_nodup_map accounts.distinct one two rfl
  exact Option.some.inj (congrArg Sqe.userData same)

variable [DecidableEq Address]

/-- A handle stays where it is when another one gets a free address. -/
theorem handle_kept {handles : Address → Option (Nat × Coroutine)} {address place : Address}
    {given : Nat × Coroutine} {value : Option (Nat × Coroutine)} (free : handles address = none)
    (handle : handles place = some given) :
    Function.update handles address value place = some given := by
  rw [Function.update_of_ne, handle]
  intro same
  rw [same, free] at handle
  cases handle

/-- A coroutine awaits an operation, which is on its way. -/
theorem Accounts.coAwait (accounts : Accounts carried awaited handles trace) {awaitable : Nat}
    {address : Address} (coroutine : Coroutine) (onItsWay : awaitable ∈ carried.map Sqe.operation)
    (unawaited : awaitable ∉ awaited) (free : handles address = none) :
    Accounts (carried.map (tag awaitable address)) (awaitable :: awaited)
      (Function.update handles address (some (awaitable, coroutine)))
      (trace ++ [.awaited awaitable coroutine]) where
  distinct := by
    rw [List.map_map]
    have same : Sqe.operation ∘ tag awaitable address = Sqe.operation :=
      funext (tag_operation awaitable address)
    rw [same]
    exact accounts.distinct
  tagged := by
    intro tagged found isAwaited
    obtain ⟨sqe, member, rfl⟩ := List.mem_map.mp found
    unfold tag at isAwaited ⊢
    by_cases this : sqe.operation = awaitable
    · rw [if_pos this]
      refine ⟨address, coroutine, rfl, ?_⟩
      rw [Function.update_self, ← this]
    · rw [if_neg this] at isAwaited ⊢
      have before := (List.mem_cons.mp isAwaited).resolve_left this
      obtain ⟨place, by_, data, handle⟩ := accounts.tagged sqe member before
      exact ⟨place, by_, data, handle_kept free handle⟩
  pending := by
    intro place other by_ handle
    by_cases here : place = address
    · subst here
      rw [Function.update_self] at handle
      cases handle
      obtain ⟨sqe, member, operation⟩ := List.mem_map.mp onItsWay
      refine ⟨List.mem_map.mpr ⟨sqe, member, ?_⟩, ?_, ?_⟩
      · unfold tag
        rw [if_pos operation, ← operation]
      · rw [awaits_awaited, (accounts.untouched awaitable unawaited).1, List.nil_append]
      · rw [resumptions_awaited, (accounts.untouched awaitable unawaited).2]
    · rw [Function.update_of_ne here] at handle
      obtain ⟨member, awaitedBy, unresumed⟩ := accounts.pending place other by_ handle
      have elsewhere : other ≠ awaitable := by
        intro same
        rw [same, (accounts.untouched awaitable unawaited).1] at awaitedBy
        cases awaitedBy
      refine ⟨List.mem_map.mpr ⟨_, member, ?_⟩, ?_, ?_⟩
      · unfold tag
        rw [if_neg elsewhere]
      · rw [awaits_awaited_other _ _ _ elsewhere, awaitedBy]
      · rw [resumptions_awaited, unresumed]
  settled := by
    intro other isAwaited
    by_cases this : other = awaitable
    · subst this
      exact .inl ⟨address, coroutine, Function.update_self _ _ _⟩
    · have before := (List.mem_cons.mp isAwaited).resolve_left this
      rcases accounts.settled other before with ⟨place, by_, handle⟩ |
          ⟨by_, res, awaitedBy, resumed, completed⟩
      · exact .inl ⟨place, by_, handle_kept free handle⟩
      · refine .inr ⟨by_, res, ?_, ?_, ?_⟩
        · rw [awaits_awaited_other _ _ _ this, awaitedBy]
        · rw [resumptions_awaited, resumed]
        · rw [completions_awaited, completed]
  untouched := by
    intro other notAwaited
    obtain ⟨elsewhere, before⟩ := List.ne_and_not_mem_of_not_mem_cons notAwaited
    rw [awaits_awaited_other _ _ _ elsewhere, resumptions_awaited]
    exact accounts.untouched other before
  safe := by
    intro place member
    rcases List.mem_append.mp member with member | member
    · exact accounts.safe place member
    · cases List.mem_singleton.mp member

/-- A loop comes to a completion and resumes the coroutine that waits for it. -/
theorem Accounts.resume {sqe : Sqe Address} {address : Address} {coroutine : Coroutine} {res : Int}
    (accounts : Accounts (sqe :: carried) awaited handles trace)
    (handle : handles address = some (sqe.operation, coroutine))
    (completed : completions sqe.operation trace = [res]) :
    Accounts carried awaited (Function.update handles address none)
      (trace ++ [.resumed sqe.operation coroutine res]) := by
  obtain ⟨new, distinct⟩ := List.nodup_cons.mp accounts.distinct
  obtain ⟨-, awaitedBy, unresumed⟩ := accounts.pending address sqe.operation coroutine handle
  have elsewhere : ∀ {place awaitable by_}, handles place = some (awaitable, by_) →
      awaitable ≠ sqe.operation → place ≠ address := by
    intro place awaitable by_ given other same
    rw [same, handle] at given
    cases given
    exact other rfl
  refine ⟨distinct, ?_, ?_, ?_, ?_, ?_⟩
  · intro other member isAwaited
    obtain ⟨place, by_, data, given⟩ :=
      accounts.tagged other (List.mem_cons_of_mem _ member) isAwaited
    have apart : other.operation ≠ sqe.operation :=
      fun same => new (List.mem_map.mpr ⟨other, member, same⟩)
    refine ⟨place, by_, data, ?_⟩
    rw [Function.update_of_ne (elsewhere given apart), given]
  · intro place awaitable by_ given
    have there : place ≠ address := by
      intro same
      rw [same, Function.update_self] at given
      cases given
    rw [Function.update_of_ne there] at given
    obtain ⟨member, awaitedThere, unresumedThere⟩ := accounts.pending place awaitable by_ given
    have apart : awaitable ≠ sqe.operation := by
      intro same
      subst same
      exact there (accounts.single given handle)
    refine ⟨?_, ?_, ?_⟩
    · refine (List.mem_cons.mp member).resolve_left fun same => apart ?_
      exact congrArg Sqe.operation same
    · rw [awaits_resumed, awaitedThere]
    · rw [resumptions_resumed_other _ _ _ _ apart, unresumedThere]
  · intro awaitable isAwaited
    by_cases this : awaitable = sqe.operation
    · subst this
      refine .inr ⟨coroutine, res, ?_, ?_, ?_⟩
      · rw [awaits_resumed, awaitedBy]
      · rw [resumptions_resumed, unresumed, List.nil_append]
      · rw [completions_resumed, completed]
    · rcases accounts.settled awaitable isAwaited with ⟨place, by_, given⟩ |
          ⟨by_, given, awaitedThere, resumed, completedThere⟩
      · refine .inl ⟨place, by_, ?_⟩
        rw [Function.update_of_ne (elsewhere given this), given]
      · refine .inr ⟨by_, given, ?_, ?_, ?_⟩
        · rw [awaits_resumed, awaitedThere]
        · rw [resumptions_resumed_other _ _ _ _ this, resumed]
        · rw [completions_resumed, completedThere]
  · intro awaitable notAwaited
    obtain ⟨noAwait, noResume⟩ := accounts.untouched awaitable notAwaited
    have apart : sqe.operation ≠ awaitable := by
      intro same
      rw [same, noAwait] at awaitedBy
      cases awaitedBy
    rw [awaits_resumed, resumptions_resumed_other _ _ _ _ apart.symm]
    exact ⟨noAwait, noResume⟩
  · intro place member
    rcases List.mem_append.mp member with member | member
    · exact accounts.safe place member
    · cases List.mem_singleton.mp member

/-! ### The ring -/

/-- Every entry that has been prepared is awaited. -/
def State.AllAwaited (s : State Address Coroutine) : Prop :=
  ∀ ticket, s.sqeHead ≤ ticket → ticket < s.sqeTail → ticket ∈ s.awaited

/-- No entry is submitted before its awaitable is awaited, and no round starts within another. -/
def Meets (entries : Nat) (s : State Address Coroutine) : Action Address Coroutine → Prop
  | .create => s.sqeTail - s.sqeHead < entries ∨ s.AllAwaited
  | .submitAndWait => s.AllAwaited ∧ s.rounds = []
  | _ => True

/-- What holds in a run whose steps meet the condition. -/
structure Inv (entries : Nat) (s : State Address Coroutine)
    (trace : List (Event Address Coroutine)) : Prop where
  ordered : s.sqeHead ≤ s.sqeTail
  fits : s.sqeTail - s.sqeHead ≤ entries
  prepared : ∀ ticket, s.sqeHead ≤ ticket → ticket < s.sqeTail →
    (s.sqes (ticket % entries)).operation = ticket
  early : ∀ ticket < s.sqeHead, ticket ∈ s.awaited
  born : ∀ ticket ∈ s.awaited, ticket < s.sqeTail
  below : ∀ sqe ∈ s.inFlight ++ s.unread, sqe.operation < s.sqeHead
  uncompleted : ∀ sqe ∈ s.inFlight, completions sqe.operation trace = []
  later : ∀ ticket, s.sqeHead ≤ ticket → completions ticket trace = []
  posted : ∀ cqe ∈ s.cqes, completions cqe.sqe.operation trace = [cqe.res]
  round : s.rounds = [] ∨ s.rounds = [.waiting] ∨
    ∃ cqeNum, s.rounds = [.loop (s.khead + cqeNum) cqeNum]
  idle : s.rounds = [.waiting] → s.sqeHead = s.sqeTail
  read : s.position ≤ s.cqes.length
  accounts : Accounts (s.carried entries) s.awaited s.handles trace

/-- Entries that are in the ring at the same time lie in different slots. -/
theorem slot_injective {entries head first second : Nat} (one : head ≤ first)
    (two : head ≤ second) (oneFits : first - head < entries) (twoFits : second - head < entries)
    (same : first % entries = second % entries) : first = second := by
  have apart : ∀ {small large : Nat}, small ≤ large → large - small < entries →
      small % entries = large % entries → small = large := by
    intro small large less fits equal
    have zero := Nat.sub_mod_eq_zero_of_mod_eq equal.symm
    rw [Nat.mod_eq_of_lt fits] at zero
    omega
  rcases Nat.le_total first second with less | less
  · exact apart less (by omega) same
  · exact (apart less (by omega) same.symm).symm

variable {s next : State Address Coroutine} {entries : Nat}
  {events : List (Event Address Coroutine)}

section Ring

omit [DecidableEq Address]

theorem start_inv : Inv entries (start : State Address Coroutine) [] where
  ordered := Nat.le_refl 0
  fits := Nat.zero_le entries
  prepared ticket _ less := absurd less (Nat.not_lt_zero ticket)
  early ticket less := absurd less (Nat.not_lt_zero ticket)
  born ticket member := absurd member List.not_mem_nil
  below sqe member := absurd member List.not_mem_nil
  uncompleted sqe member := absurd member List.not_mem_nil
  later _ _ := rfl
  posted cqe member := absurd member List.not_mem_nil
  round := .inl rfl
  idle _ := rfl
  read := Nat.le_refl 0
  accounts := {
    distinct := List.nodup_nil
    tagged := fun sqe member => absurd member List.not_mem_nil
    pending := fun _ _ _ handle => by cases handle
    settled := fun awaitable member => absurd member List.not_mem_nil
    untouched := fun _ _ => ⟨rfl, rfl⟩
    safe := fun _ => List.not_mem_nil }

/-- The operations in the ring. -/
theorem operation_of_mem_ring (inv : Inv entries s trace) {sqe : Sqe Address}
    (member : sqe ∈ s.ring entries) : s.sqeHead ≤ sqe.operation ∧ sqe.operation < s.sqeTail := by
  obtain ⟨ticket, inside, rfl⟩ := List.mem_map.mp member
  obtain ⟨least, most⟩ := List.mem_range'_1.mp inside
  have less : ticket < s.sqeTail := by
    have ordered := inv.ordered
    omega
  rw [inv.prepared ticket least less]
  exact ⟨least, less⟩

theorem operation_of_mem_carried (inv : Inv entries s trace) {sqe : Sqe Address}
    (member : sqe ∈ s.carried entries) : sqe.operation < s.sqeTail := by
  rcases List.mem_append.mp member with member | member
  · exact (operation_of_mem_ring inv member).2
  · exact Nat.lt_of_lt_of_le (inv.below sqe member) inv.ordered

/-- A submission of entries that are all awaited. -/
theorem submit_inv (inv : Inv entries s trace) (allAwaited : s.AllAwaited) :
    Inv entries (s.submit entries) trace where
  ordered := Nat.le_refl _
  fits := by
    show s.sqeTail - s.sqeTail ≤ entries
    omega
  prepared ticket least less := absurd less (Nat.not_lt_of_le least)
  early ticket less := by
    by_cases early : ticket < s.sqeHead
    · exact inv.early ticket early
    · exact allAwaited ticket (Nat.le_of_not_lt early) less
  born := inv.born
  below sqe member := by
    have within : sqe ∈ s.carried entries := by
      rw [State.submit, State.unread] at member
      unfold State.carried
      simp only [List.mem_append] at member ⊢
      tauto
    exact operation_of_mem_carried inv within
  uncompleted sqe member := by
    rcases List.mem_append.mp member with member | member
    · exact inv.uncompleted sqe member
    · exact inv.later _ (operation_of_mem_ring inv member).1
  later ticket least := inv.later ticket (Nat.le_trans inv.ordered least)
  posted := inv.posted
  round := inv.round
  idle _ := rfl
  read := inv.read
  accounts := by
    refine inv.accounts.perm ?_
    have empty : (s.submit entries).ring entries = [] := by
      show (List.range' s.sqeTail (s.sqeTail - s.sqeTail)).map _ = []
      rw [Nat.sub_self]
      rfl
    unfold State.carried
    rw [empty, List.nil_append]
    show (s.ring entries ++ (s.inFlight ++ s.unread)).Perm
      ((s.inFlight ++ s.ring entries) ++ s.unread)
    rw [← List.append_assoc]
    exact List.perm_append_comm.append_right _

/-- A new entry, when there is room. -/
theorem prepare_inv (inv : Inv entries s trace) (room : s.sqeTail - s.sqeHead < entries)
    (awake : s.rounds ≠ [.waiting]) (data : Option Address) :
    Inv entries { s with
      sqes := Function.update s.sqes (s.sqeTail % entries) ⟨s.sqeTail, data⟩,
      sqeTail := s.sqeTail + 1 } (trace ++ [.created s.sqeTail]) := by
  have ordered := inv.ordered
  have other : ∀ ticket, s.sqeHead ≤ ticket → ticket < s.sqeTail →
      ticket % entries ≠ s.sqeTail % entries := by
    intro ticket least less same
    have equal := slot_injective least ordered (by omega) room same
    omega
  have ring : State.ring entries { s with
      sqes := Function.update s.sqes (s.sqeTail % entries) ⟨s.sqeTail, data⟩,
      sqeTail := s.sqeTail + 1 } = s.ring entries ++ [⟨s.sqeTail, data⟩] := by
    unfold State.ring
    dsimp only
    rw [Nat.sub_add_comm ordered, List.range'_1_concat, List.map_append, List.map_singleton,
      Nat.add_sub_cancel' ordered, Function.update_self]
    congr 1
    refine List.map_congr_left fun ticket inside => ?_
    obtain ⟨least, most⟩ := List.mem_range'_1.mp inside
    rw [Function.update_of_ne (other ticket least (by omega))]
  have same : ∀ operation, completions operation (trace ++ [.created s.sqeTail]) =
      completions operation trace := by
    intro operation
    rw [completions_append]
    exact List.append_nil _
  refine ⟨?_, ?_, ?_, inv.early, ?_, inv.below, ?_, ?_, ?_, inv.round,
    fun waits => absurd waits awake, inv.read, ?_⟩
  · exact Nat.le_succ_of_le ordered
  · show s.sqeTail + 1 - s.sqeHead ≤ entries
    omega
  · intro ticket least less
    show (Function.update s.sqes (s.sqeTail % entries) _ (ticket % entries)).operation = ticket
    by_cases new : ticket = s.sqeTail
    · rw [new, Function.update_self]
    · have before : ticket < s.sqeTail := Nat.lt_of_le_of_ne (Nat.le_of_lt_succ less) new
      rw [Function.update_of_ne (other ticket least before)]
      exact inv.prepared ticket least before
  · intro ticket member
    exact Nat.lt_succ_of_lt (inv.born ticket member)
  · intro sqe member
    rw [same]
    exact inv.uncompleted sqe member
  · intro ticket least
    rw [same]
    exact inv.later ticket least
  · intro cqe member
    rw [same]
    exact inv.posted cqe member
  · have fresh : s.sqeTail ∉ (s.carried entries).map Sqe.operation := by
      intro member
      obtain ⟨sqe, member, same⟩ := List.mem_map.mp member
      have less := operation_of_mem_carried inv member
      omega
    have unawaited : s.sqeTail ∉ s.awaited := fun member => absurd (inv.born _ member) (by omega)
    have grown : Accounts (⟨s.sqeTail, data⟩ :: s.carried entries) s.awaited s.handles
        (trace ++ [.created s.sqeTail]) := inv.accounts.prepare fresh unawaited
    refine grown.perm ?_
    unfold State.carried
    rw [ring, List.append_assoc]
    exact List.perm_middle.symm

theorem create_inv {prep : Option Address → Option Address} (inv : Inv entries s trace)
    (positive : 0 < entries) (awake : s.rounds ≠ [.waiting])
    (meets : Meets entries s (.create : Action Address Coroutine)) :
    Inv entries (s.create entries prep) (trace ++ [.created s.sqeTail]) := by
  unfold State.create State.getSqe
  by_cases room : s.sqeTail - s.sqeHead < entries
  · rw [if_pos room]
    exact prepare_inv inv room awake _
  · rw [if_neg room]
    have submitted := submit_inv inv (meets.resolve_left room)
    refine prepare_inv submitted ?_ awake _
    show s.sqeTail - s.sqeTail < entries
    omega

/-- A step that changes nothing but where the loop stands, with the same completions to read. -/
theorem rounds_inv (inv : Inv entries s trace) {khead : Nat} {rounds : List Round}
    (position : State.position { s with khead := khead, rounds := rounds } = s.position)
    (round : rounds = [] ∨ rounds = [.waiting] ∨
      ∃ cqeNum, rounds = [.loop (khead + cqeNum) cqeNum])
    (idle : rounds = [.waiting] → s.sqeHead = s.sqeTail) :
    Inv entries { s with khead := khead, rounds := rounds } trace := by
  have unread : State.unread { s with khead := khead, rounds := rounds } = s.unread := by
    unfold State.unread
    rw [position]
  have carried : State.carried { s with khead := khead, rounds := rounds } entries =
      s.carried entries := by
    unfold State.carried
    rw [unread]
    rfl
  refine ⟨inv.ordered, inv.fits, inv.prepared, inv.early, inv.born, ?_, inv.uncompleted, inv.later,
    inv.posted, round, idle, ?_, ?_⟩
  · rw [unread]
    exact inv.below
  · rw [position]
    exact inv.read
  · rw [carried]
    exact inv.accounts

theorem complete_inv (inv : Inv entries s trace) {place : Nat} {sqe : Sqe Address} (res : Int)
    (found : s.inFlight[place]? = some sqe) :
    Inv entries { s with
      inFlight := s.inFlight.eraseIdx place, cqes := s.cqes ++ [⟨sqe, res⟩] }
      (trace ++ [.completed sqe.operation res]) := by
  obtain ⟨within, this⟩ := List.getElem?_eq_some_iff.mp found
  have member : sqe ∈ s.inFlight := List.mem_of_getElem? found
  have split : (sqe :: s.inFlight.eraseIdx place).Perm s.inFlight := by
    rw [← this]
    exact List.getElem_cons_eraseIdx_perm within
  have unread : State.unread { s with
      inFlight := s.inFlight.eraseIdx place, cqes := s.cqes ++ [⟨sqe, res⟩] } =
        s.unread ++ [sqe] := by
    unfold State.unread
    show ((s.cqes ++ [(⟨sqe, res⟩ : Cqe Address)]).drop s.position).map Cqe.sqe = _
    rw [List.drop_append_of_le_length inv.read, List.map_append]
    rfl
  have moved : (s.carried entries).Perm (State.carried { s with
      inFlight := s.inFlight.eraseIdx place, cqes := s.cqes ++ [⟨sqe, res⟩] } entries) := by
    unfold State.carried
    rw [unread]
    refine List.Perm.append_left _ ?_
    show (s.inFlight ++ s.unread).Perm (s.inFlight.eraseIdx place ++ (s.unread ++ [sqe]))
    rw [← List.append_assoc]
    refine (split.symm.append_right _).trans ?_
    exact (List.perm_append_singleton sqe _).symm
  have uncompleted := inv.uncompleted sqe member
  have distinct : ∀ other ∈ s.inFlight.eraseIdx place, other.operation ≠ sqe.operation := by
    have nodup := inv.accounts.distinct
    unfold State.carried at nodup
    rw [List.map_append, List.map_append] at nodup
    have within := (List.nodup_append.mp (List.nodup_append.mp nodup).2.1).1
    have here := (List.nodup_cons.mp ((split.map Sqe.operation).nodup_iff.mpr within)).1
    intro other member same
    exact here (List.mem_map.mpr ⟨other, member, same⟩)
  have elsewhere : ∀ operation, operation ≠ sqe.operation →
      completions operation (trace ++ [.completed sqe.operation res]) =
        completions operation trace := by
    intro operation apart
    rw [completions_append]
    simp only [completions, List.filterMap_cons, if_neg apart.symm, List.filterMap_nil,
      List.append_nil]
  refine ⟨inv.ordered, inv.fits, inv.prepared, inv.early, inv.born, ?_, ?_, ?_, ?_, inv.round,
    inv.idle, ?_, ?_⟩
  · intro other member
    rw [unread] at member
    refine inv.below other ?_
    rcases List.mem_append.mp member with member | member
    · exact List.mem_append_left _ (List.mem_of_mem_eraseIdx member)
    · rcases List.mem_append.mp member with member | member
      · exact List.mem_append_right _ member
      · rw [List.mem_singleton.mp member]
        exact List.mem_append_left _ (List.mem_of_getElem? found)
  · intro other member
    rw [elsewhere _ (distinct other member)]
    exact inv.uncompleted other (List.mem_of_mem_eraseIdx member)
  · intro ticket least
    have below := inv.below sqe (List.mem_append_left _ member)
    rw [elsewhere ticket (Nat.ne_of_gt (Nat.lt_of_lt_of_le below least))]
    exact inv.later ticket least
  · intro cqe isPosted
    rcases List.mem_append.mp isPosted with isPosted | isPosted
    · have completed := inv.posted cqe isPosted
      rw [elsewhere, completed]
      intro same
      rw [same, uncompleted] at completed
      cases completed
    · rw [List.mem_singleton.mp isPosted, completions_append, uncompleted]
      simp only [completions, List.filterMap_cons, if_true, List.filterMap_nil, List.nil_append]
  · show s.position ≤ (s.cqes ++ [_]).length
    rw [List.length_append]
    exact Nat.le_add_right_of_le inv.read
  · exact (inv.accounts.complete res uncompleted).perm moved

end Ring

variable [DecidableEq Coroutine]

theorem coAwait_inv (inv : Inv entries s trace) {awaitable : Nat} {coroutine : Coroutine}
    {address : Address} (created : awaitable < s.sqeTail) (unawaited : awaitable ∉ s.awaited)
    (free : s.handles address = none) :
    Inv entries (s.coAwait entries awaitable coroutine address)
      (trace ++ [.awaited awaitable coroutine]) := by
  have least : s.sqeHead ≤ awaitable :=
    Nat.le_of_not_lt fun early => unawaited (inv.early awaitable early)
  have fits := inv.fits
  have ordered := inv.ordered
  have operation : ∀ ticket, s.sqeHead ≤ ticket → ticket < s.sqeTail →
      (s.coAwait entries awaitable coroutine address).sqes (ticket % entries) =
        tag awaitable address (s.sqes (ticket % entries)) := by
    intro ticket least' less
    show Function.update s.sqes (awaitable % entries) _ (ticket % entries) = _
    unfold tag
    rw [inv.prepared ticket least' less]
    by_cases this : ticket = awaitable
    · rw [if_pos this, this, Function.update_self]
      have prepared := inv.prepared awaitable least created
      simp only [prepared]
    · have apart : ticket % entries ≠ awaitable % entries := fun same =>
        this (slot_injective least' least (by omega) (by omega) same)
      rw [if_neg this, Function.update_of_ne apart]
  have ring : (s.coAwait entries awaitable coroutine address).ring entries =
      (s.ring entries).map (tag awaitable address) := by
    unfold State.ring
    rw [List.map_map]
    refine List.map_congr_left fun ticket inside => ?_
    obtain ⟨least', most⟩ := List.mem_range'_1.mp inside
    have less : ticket < s.sqeTail := Nat.lt_of_lt_of_eq most (Nat.add_sub_cancel' ordered)
    exact operation ticket least' less
  have others : ∀ sqe ∈ s.inFlight ++ s.unread, tag awaitable address sqe = sqe := by
    intro sqe member
    unfold tag
    have below := inv.below sqe member
    rw [if_neg (by omega)]
  have carried : (s.coAwait entries awaitable coroutine address).carried entries =
      (s.carried entries).map (tag awaitable address) := by
    unfold State.carried
    rw [ring, List.map_append]
    congr 1
    exact ((List.map_congr_left others).trans (List.map_id _)).symm
  have same : ∀ operation, completions operation (trace ++ [.awaited awaitable coroutine]) =
      completions operation trace := by
    intro operation
    rw [completions_append]
    exact List.append_nil _
  refine ⟨ordered, fits, ?_, ?_, ?_, inv.below, ?_, ?_, ?_, inv.round, inv.idle, inv.read, ?_⟩
  · intro ticket least' less
    rw [operation ticket least' less, tag_operation]
    exact inv.prepared ticket least' less
  · intro ticket early
    exact List.mem_cons_of_mem _ (inv.early ticket early)
  · intro ticket member
    rcases List.mem_cons.mp member with rfl | member
    · exact created
    · exact inv.born ticket member
  · intro sqe member
    rw [same]
    exact inv.uncompleted sqe member
  · intro ticket least'
    rw [same]
    exact inv.later ticket least'
  · intro cqe member
    rw [same]
    exact inv.posted cqe member
  · rw [carried]
    refine inv.accounts.coAwait coroutine ?_ unawaited free
    refine List.mem_map.mpr ⟨s.sqes (awaitable % entries), List.mem_append_left _ ?_, ?_⟩
    · exact List.mem_map.mpr ⟨awaitable, List.mem_range'_1.mpr ⟨least, by omega⟩, rfl⟩
    · exact inv.prepared awaitable least created

/-- The loop reads a completion: somebody waits for it. -/
theorem resume_inv (inv : Inv entries s trace) {cqeNum : Nat} {cqe : Cqe Address}
    (loops : s.rounds = [.loop (s.khead + cqeNum) cqeNum])
    (found : s.cqes[s.khead + cqeNum]? = some cqe) :
    ∃ address coroutine, s.handles address = some (cqe.sqe.operation, coroutine) ∧
      State.resume { s with rounds := [.loop (s.khead + cqeNum + 1) (cqeNum + 1)] } cqe =
        ({ s with
          rounds := [.loop (s.khead + cqeNum + 1) (cqeNum + 1)],
          handles := Function.update s.handles address none,
          suspended := Function.update s.suspended coroutine false },
          [.resumed cqe.sqe.operation coroutine cqe.res]) ∧
      Inv entries { s with
          rounds := [.loop (s.khead + cqeNum + 1) (cqeNum + 1)],
          handles := Function.update s.handles address none,
          suspended := Function.update s.suspended coroutine false }
        (trace ++ [.resumed cqe.sqe.operation coroutine cqe.res]) := by
  obtain ⟨within, this⟩ := List.getElem?_eq_some_iff.mp found
  have position : s.position = s.khead + cqeNum := by
    unfold State.position
    rw [loops]
  have unread : s.unread = cqe.sqe :: (s.cqes.drop (s.khead + cqeNum + 1)).map Cqe.sqe := by
    unfold State.unread
    rw [position, List.drop_eq_getElem_cons within, this, List.map_cons]
  have head : cqe.sqe ∈ s.inFlight ++ s.unread := by
    rw [unread]
    exact List.mem_append_right _ List.mem_cons_self
  have isAwaited : cqe.sqe.operation ∈ s.awaited := inv.early _ (inv.below _ head)
  obtain ⟨address, coroutine, data, handle⟩ :=
    inv.accounts.tagged cqe.sqe (List.mem_append_right _ head) isAwaited
  refine ⟨address, coroutine, handle, ?_, ?_⟩
  · unfold State.resume
    rw [data]
    dsimp only
    rw [handle]
  · have completed := inv.posted cqe (List.mem_of_getElem? found)
    have same : ∀ operation, completions operation
        (trace ++ [.resumed cqe.sqe.operation coroutine cqe.res]) =
          completions operation trace := by
      intro operation
      rw [completions_append]
      exact List.append_nil _
    refine ⟨inv.ordered, inv.fits, inv.prepared, inv.early, inv.born, ?_, ?_, ?_, ?_, ?_,
      fun waits => (by cases waits), ?_, ?_⟩
    · intro sqe member
      refine inv.below sqe ?_
      rw [unread]
      rcases List.mem_append.mp member with member | member
      · exact List.mem_append_left _ member
      · exact List.mem_append_right _ (List.mem_cons_of_mem _ member)
    · intro sqe member
      rw [same]
      exact inv.uncompleted sqe member
    · intro ticket least
      rw [same]
      exact inv.later ticket least
    · intro other member
      rw [same]
      exact inv.posted other member
    · exact .inr (.inr ⟨cqeNum + 1, rfl⟩)
    · exact within
    · have before : Accounts (cqe.sqe :: (s.ring entries ++ (s.inFlight ++
          (s.cqes.drop (s.khead + cqeNum + 1)).map Cqe.sqe))) s.awaited s.handles trace := by
        refine inv.accounts.perm ?_
        unfold State.carried
        rw [unread]
        exact (List.perm_middle.append_left _).trans List.perm_middle
      exact before.resume handle completed

theorem next_inv (inv : Inv entries s trace) (step : s.next = some (next, events)) :
    Inv entries next (trace ++ events) := by
  unfold State.next at step
  rcases inv.round with none | waits | ⟨cqeNum, loops⟩
  · rw [none] at step
    cases step
  · rw [waits] at step
    cases step
  · rw [loops] at step
    dsimp only at step
    cases found : s.cqes[s.khead + cqeNum]? with
    | some cqe =>
      rw [found] at step
      obtain ⟨address, coroutine, -, resumed, kept⟩ := resume_inv inv loops found
      dsimp only at step
      rw [resumed] at step
      cases step
      exact kept
    | none =>
      rw [found] at step
      cases step
      rw [List.append_nil]
      refine rounds_inv inv ?_ (.inl rfl) (fun waits => by cases waits)
      unfold State.position
      rw [loops]

/-- Every step that meets the condition keeps the accounts. -/
theorem system_inv {prep : Option Address → Option Address} {action : Action Address Coroutine}
    (positive : 0 < entries) (inv : Inv entries s trace) (meets : Meets entries s action)
    (step : system entries prep s action = some (next, events)) :
    Inv entries next (trace ++ events) := by
  cases action with
  | create =>
    dsimp only [system] at step
    split at step
    · cases step
    · rename_i awake
      cases step
      refine create_inv inv positive ?_ meets
      intro waits
      unfold State.blocked at awake
      rw [waits] at awake
      exact awake rfl
  | coAwait awaitable coroutine address =>
    dsimp only [system] at step
    split at step
    · rename_i possible
      cases step
      exact coAwait_inv inv possible.2.1 possible.2.2.1 possible.2.2.2.2
    · cases step
  | submitAndWait =>
    dsimp only [system] at step
    split at step
    · cases step
    · cases step
      rw [List.append_nil]
      have submitted := submit_inv inv meets.1
      have none : s.rounds = [] := meets.2
      rw [none]
      refine rounds_inv submitted ?_ (.inr (.inl rfl)) (fun _ => rfl)
      show s.khead = s.position
      unfold State.position
      rw [none]
  | wake =>
    dsimp only [system] at step
    rcases inv.round with none | waits | ⟨cqeNum, loops⟩
    · rw [none] at step
      cases step
    · rw [waits] at step
      dsimp only at step
      split at step
      · cases step
        rw [List.append_nil]
        refine rounds_inv inv ?_ (.inr (.inr ⟨0, rfl⟩)) (fun waits => by cases waits)
        show s.khead = s.position
        unfold State.position
        rw [waits]
      · cases step
    · rw [loops] at step
      cases step
  | next => exact next_inv inv step
  | complete place res =>
    dsimp only [system] at step
    split at step
    · rename_i sqe found
      cases step
      exact complete_inv inv res found
    · cases step

theorem inv_of_reachesBy {prep : Option Address → Option Address} (positive : 0 < entries)
    (run : Transitions.ReachesBy (Meets entries) (system entries prep)
      (start : State Address Coroutine) s trace) : Inv entries s trace :=
  run.invariant (Inv entries) start_inv
    fun _ _ _ _ _ _ inv meets step => system_inv positive inv meets step

/-! ### Delivery -/

/-- What is left to do in the rounds at work. -/
def phase : List Round → Nat
  | [] => 2
  | .waiting :: _ => 1
  | .loop _ _ :: _ => 3

/-- How far the operations on their way are from their coroutines. -/
def State.weight (s : State Address Coroutine) : Nat :=
  6 * (s.sqeTail - s.sqeHead) + 5 * s.inFlight.length + 4 * (s.cqes.length - s.position) +
    phase s.rounds

/-- A run that goes on from `s`, to a state with less to do. -/
def Advances (entries : Nat) (prep : Option Address → Option Address)
    (s : State Address Coroutine) (trace : List (Event Address Coroutine)) : Prop :=
  ∃ (next : State Address Coroutine) (later : List (Event Address Coroutine)),
    (Transitions.ReachesBy (Meets entries) (system entries prep) start s trace →
      Transitions.ReachesBy (Meets entries) (system entries prep) start next (trace ++ later)) ∧
    next.AllAwaited ∧ next.weight < s.weight

variable {prep : Option Address → Option Address}

theorem advances_complete (inv : Inv entries s trace) (allAwaited : s.AllAwaited)
    (busy : s.inFlight ≠ []) : Advances entries prep s trace := by
  obtain ⟨sqe, rest, same⟩ := List.exists_cons_of_ne_nil busy
  have step : system entries prep s (.complete 0 0) = some ({ s with
      inFlight := s.inFlight.eraseIdx 0, cqes := s.cqes ++ [⟨sqe, 0⟩] },
      [.completed sqe.operation 0]) := by
    dsimp only [system]
    rw [same]
    rfl
  refine ⟨_, _, fun run => .next run (show Meets entries s (.complete 0 0) from trivial) step,
    allAwaited, ?_⟩
  have read := inv.read
  have grown : (s.cqes ++ [(⟨sqe, 0⟩ : Cqe Address)]).length = s.cqes.length + 1 :=
    List.length_append
  have shorter : (s.inFlight.eraseIdx 0).length + 1 = s.inFlight.length := by
    rw [same]
    rfl
  show 6 * (s.sqeTail - s.sqeHead) + 5 * (s.inFlight.eraseIdx 0).length +
    4 * ((s.cqes ++ [(⟨sqe, 0⟩ : Cqe Address)]).length - s.position) + phase s.rounds <
    6 * (s.sqeTail - s.sqeHead) + 5 * s.inFlight.length + 4 * (s.cqes.length - s.position) +
      phase s.rounds
  omega

/-- The loop of a round reads a completion. -/
theorem reads (prep : Option Address → Option Address) (inv : Inv entries s trace) (cqeNum : Nat)
    (loops : s.rounds = [.loop (s.khead + cqeNum) cqeNum])
    (within : s.khead + cqeNum < s.cqes.length) :
    ∃ (next : State Address Coroutine) (events : List (Event Address Coroutine)),
      system entries prep s .next = some (next, events) ∧
      (s.AllAwaited → next.AllAwaited) ∧ next.weight < s.weight - 3 := by
  have found : s.cqes[s.khead + cqeNum]? = some s.cqes[s.khead + cqeNum] :=
    List.getElem?_eq_getElem within
  obtain ⟨address, coroutine, -, resumed, -⟩ := resume_inv inv loops found
  have step : system entries prep s .next = some (State.resume
      { s with rounds := [.loop (s.khead + cqeNum + 1) (cqeNum + 1)] }
      s.cqes[s.khead + cqeNum]) := by
    show s.next = _
    unfold State.next
    rw [loops]
    dsimp only
    rw [found]
  rw [resumed] at step
  refine ⟨_, _, step, fun allAwaited => allAwaited, ?_⟩
  have position : s.position = s.khead + cqeNum := by
    unfold State.position
    rw [loops]
  unfold State.weight
  rw [position, loops]
  show 6 * (s.sqeTail - s.sqeHead) + 5 * s.inFlight.length +
    4 * (s.cqes.length - (s.khead + cqeNum + 1)) + 3 <
    6 * (s.sqeTail - s.sqeHead) + 5 * s.inFlight.length +
      4 * (s.cqes.length - (s.khead + cqeNum)) + 3 - 3
  omega

section Rounds

variable (prep)

/-- Outside a round, one starts. -/
theorem advances_submit (allAwaited : s.AllAwaited) (idle : s.inFlight = [])
    (none : s.rounds = []) : Advances entries prep s trace := by
  have step : system entries prep s .submitAndWait =
      some ({ s.submit entries with rounds := [.waiting] }, []) := by
    have awake : s.blocked = false := by
      unfold State.blocked
      rw [none]
      rfl
    dsimp only [system]
    rw [awake, none]
    rfl
  have meets : Meets entries s (.submitAndWait : Action Address Coroutine) := ⟨allAwaited, none⟩
  refine ⟨_, _, fun run => .next run meets step,
    fun ticket least less => absurd less (Nat.not_lt_of_le least), ?_⟩
  have position : s.position = s.khead := by
    unfold State.position
    rw [none]
  have submitted : (s.submit entries).inFlight.length = s.sqeTail - s.sqeHead := by
    show (s.inFlight ++ s.ring entries).length = _
    unfold State.ring
    rw [idle, List.nil_append, List.length_map, List.length_range']
  unfold State.weight
  rw [position, none, idle]
  dsimp only
  rw [submitted]
  show 6 * (s.sqeTail - s.sqeTail) + 5 * (s.sqeTail - s.sqeHead) +
    4 * (s.cqes.length - s.khead) + 1 <
    6 * (s.sqeTail - s.sqeHead) + 5 * 0 + 4 * (s.cqes.length - s.khead) + 2
  omega

/-- A waiting thread is woken by a completion, and reads it. -/
theorem advances_wake (positive : 0 < entries) (inv : Inv entries s trace)
    (allAwaited : s.AllAwaited) (idle : s.inFlight = []) (left : s.carried entries ≠ [])
    (waits : s.rounds = [.waiting]) : Advances entries prep s trace := by
  have position : s.position = s.khead := by
    unfold State.position
    rw [waits]
  have some : s.khead < s.cqes.length := by
    by_contra none
    refine left ?_
    unfold State.carried State.ring State.unread
    rw [inv.idle waits, Nat.sub_self, idle, position, List.drop_of_length_le (by omega)]
    rfl
  have step : system entries prep s .wake =
      .some ({ s with rounds := [.loop s.khead 0] }, []) := by
    dsimp only [system]
    rw [waits]
    dsimp only
    rw [if_pos some]
  have meets : Meets entries s (.wake : Action Address Coroutine) := trivial
  have woken := system_inv positive inv meets step
  obtain ⟨next, events, reading, awaits, lighter⟩ :=
    reads prep woken 0 rfl some
  refine ⟨next, [] ++ events, fun run => ?_, awaits allAwaited, ?_⟩
  · rw [← List.append_assoc]
    exact .next (.next run meets step) (show Meets entries _ .next from trivial) reading
  · have same : State.weight { s with rounds := [.loop s.khead 0] } = s.weight + 2 := by
      unfold State.weight
      rw [position, waits]
      rfl
    omega

/-- The loop of a round reads a completion or comes to its end. -/
theorem advances_loop (inv : Inv entries s trace) (allAwaited : s.AllAwaited) {cqeNum : Nat}
    (loops : s.rounds = [.loop (s.khead + cqeNum) cqeNum]) : Advances entries prep s trace := by
  have position : s.position = s.khead + cqeNum := by
    unfold State.position
    rw [loops]
  have meets : Meets entries s (.next : Action Address Coroutine) := trivial
  by_cases within : s.khead + cqeNum < s.cqes.length
  · obtain ⟨next, events, reading, awaits, lighter⟩ := reads prep inv cqeNum loops within
    exact ⟨next, events, fun run => .next run meets reading, awaits allAwaited, by omega⟩
  · have step : system entries prep s .next =
        some ({ s with khead := s.khead + cqeNum, rounds := [] }, []) := by
      show s.next = _
      unfold State.next
      rw [loops]
      dsimp only
      rw [List.getElem?_eq_none (Nat.le_of_not_lt within)]
    refine ⟨_, _, fun run => .next run meets step, allAwaited, ?_⟩
    unfold State.weight
    rw [position, loops]
    show 6 * (s.sqeTail - s.sqeHead) + 5 * s.inFlight.length +
      4 * (s.cqes.length - (s.khead + cqeNum)) + 2 <
      6 * (s.sqeTail - s.sqeHead) + 5 * s.inFlight.length +
        4 * (s.cqes.length - (s.khead + cqeNum)) + 3
    omega

/-- As long as something is on its way, the kernel or the event loop can bring it further. -/
theorem advances_of_carried (positive : 0 < entries) (inv : Inv entries s trace)
    (allAwaited : s.AllAwaited) (left : s.carried entries ≠ []) :
    Advances entries prep s trace := by
  by_cases idle : s.inFlight = []
  · rcases inv.round with none | waits | ⟨cqeNum, loops⟩
    · exact advances_submit prep allAwaited idle none
    · exact advances_wake prep positive inv allAwaited idle left waits
    · exact advances_loop prep inv allAwaited loops
  · exact advances_complete inv allAwaited idle

end Rounds

/-- So everything can be brought to its coroutine. -/
theorem delivers (positive : 0 < entries)
    (run : Transitions.ReachesBy (Meets entries) (system entries prep)
      (start : State Address Coroutine) s trace) (allAwaited : s.AllAwaited) :
    ∃ (last : State Address Coroutine) (later : List (Event Address Coroutine)),
      Transitions.ReachesBy (Meets entries) (system entries prep) start last (trace ++ later) ∧
      last.carried entries = [] := by
  induction weight : s.weight using Nat.strongRecOn generalizing s trace with
  | _ weight inductionHypothesis =>
    by_cases left : s.carried entries = []
    · exact ⟨s, [], by rw [List.append_nil]; exact run, left⟩
    · obtain ⟨next, events, goes, stays, lighter⟩ :=
        advances_of_carried prep positive (inv_of_reachesBy positive run) allAwaited left
      obtain ⟨last, later, reached, empty⟩ :=
        inductionHypothesis next.weight (weight ▸ lighter) (goes run) stays rfl
      exact ⟨last, events ++ later, by rw [← List.append_assoc]; exact reached, empty⟩

/-- Each coroutine that awaits gets the result of the operation that its own awaitable has
prepared: it has been resumed once with it, or it has not been resumed and the operation is on its
way with the address of its handle. -/
structure Routed (entries : Nat) (s : State Address Coroutine)
    (trace : List (Event Address Coroutine)) : Prop where
  routed : ∀ awaitable coroutine, .awaited awaitable coroutine ∈ trace →
    (∃ res, resumptions awaitable trace = [(coroutine, res)] ∧
      completions awaitable trace = [res]) ∨
    (resumptions awaitable trace = [] ∧ ∃ address,
      s.handles address = some (awaitable, coroutine) ∧
      ⟨awaitable, some address⟩ ∈ s.carried entries)
  awaiting : ∀ awaitable coroutine res, .resumed awaitable coroutine res ∈ trace →
    .awaited awaitable coroutine ∈ trace
  safe : ∀ address, .dangling address ∉ trace

omit [DecidableEq Address] [DecidableEq Coroutine] in
theorem routed_of_accounts
    (accounts : Accounts (s.carried entries) s.awaited s.handles trace) :
    Routed entries s trace where
  routed awaitable coroutine member := by
    have awaiting := mem_awaits.mpr member
    have isAwaited : awaitable ∈ s.awaited := by
      by_contra unawaited
      rw [(accounts.untouched awaitable unawaited).1] at awaiting
      cases awaiting
    rcases accounts.settled awaitable isAwaited with ⟨address, other, handle⟩ |
        ⟨other, res, awaitedBy, resumed, completed⟩
    · obtain ⟨onItsWay, awaitedBy, unresumed⟩ := accounts.pending address awaitable other handle
      rw [awaitedBy] at awaiting
      cases List.mem_singleton.mp awaiting
      exact .inr ⟨unresumed, address, handle, onItsWay⟩
    · rw [awaitedBy] at awaiting
      cases List.mem_singleton.mp awaiting
      exact .inl ⟨res, resumed, completed⟩
  awaiting awaitable coroutine res member := by
    have resumed := mem_resumptions member
    have isAwaited : awaitable ∈ s.awaited := by
      by_contra unawaited
      rw [(accounts.untouched awaitable unawaited).2] at resumed
      cases resumed
    rcases accounts.settled awaitable isAwaited with ⟨address, other, handle⟩ |
        ⟨other, given, awaitedBy, single, -⟩
    · rw [(accounts.pending address awaitable other handle).2.2] at resumed
      cases resumed
    · rw [single] at resumed
      cases List.mem_singleton.mp resumed
      refine mem_awaits.mp ?_
      rw [awaitedBy]
      exact List.mem_singleton_self _
  safe := accounts.safe

/-- The completions of `io_service`. In a run in which no entry is submitted before its awaitable is
awaited and no round starts within another, every completion goes to the coroutine that awaits its
operation, and once every awaitable is awaited, the kernel and the event loop can resume all the
coroutines. -/
theorem routed_of_reachesBy (positive : 0 < entries)
    (run : Transitions.ReachesBy (Meets entries) (system entries prep)
      (start : State Address Coroutine) s trace) :
    Routed entries s trace ∧
    (s.AllAwaited → ∃ (last : State Address Coroutine) (later : List (Event Address Coroutine)),
      Transitions.ReachesBy (Meets entries) (system entries prep) start last (trace ++ later) ∧
      ∀ awaitable coroutine, .awaited awaitable coroutine ∈ trace →
        ∃ res, resumptions awaitable (trace ++ later) = [(coroutine, res)] ∧
          completions awaitable (trace ++ later) = [res]) := by
  refine ⟨routed_of_accounts (inv_of_reachesBy positive run).accounts, fun allAwaited => ?_⟩
  obtain ⟨last, later, reached, empty⟩ := delivers positive run allAwaited
  refine ⟨last, later, reached, fun awaitable coroutine member => ?_⟩
  have routed := routed_of_accounts (inv_of_reachesBy positive reached).accounts
  rcases routed.routed awaitable coroutine (List.mem_append_left _ member) with
    resumed | ⟨-, address, -, onItsWay⟩
  · exact resumed
  · rw [empty] at onItsWay
    cases onItsWay

section Example

instance (s : State Address Coroutine) : Decidable s.AllAwaited :=
  decidable_of_iff (∀ ticket ∈ List.range' s.sqeHead (s.sqeTail - s.sqeHead), ticket ∈ s.awaited)
    ⟨fun all ticket least less => all ticket (List.mem_range'_1.mpr ⟨least, by omega⟩),
      fun all ticket member => by
        obtain ⟨least, most⟩ := List.mem_range'_1.mp member
        exact all ticket least (by omega)⟩

instance (s : State Address Coroutine) (action : Action Address Coroutine) :
    Decidable (Meets entries s action) := by
  unfold Meets
  cases action <;> infer_instance

/-- Two coroutines await an operation each, and a third operation makes room for itself. -/
def threeAwaits : List (Action Nat Nat) :=
  [.create, .coAwait 0 0 0, .create, .coAwait 1 1 1, .create, .coAwait 2 2 2, .complete 1 8,
    .submitAndWait, .wake, .next, .complete 1 9, .next, .complete 0 7, .next, .next]

theorem routed_threeAwaits : ∃ s trace,
    Transitions.executeBy (Meets 2) (system 2 id) (start : State Nat Nat) threeAwaits =
      some (s, trace) ∧
    resumptions 0 trace = [(0, 7)] ∧ resumptions 1 trace = [(1, 8)] ∧
    resumptions 2 trace = [(2, 9)] ∧ Routed 2 s trace := by
  have resumed : (Transitions.executeBy (Meets 2) (system 2 id) (start : State Nat Nat)
      threeAwaits).map (fun reached =>
        (resumptions 0 reached.2, resumptions 1 reached.2, resumptions 2 reached.2)) =
          some ([(0, 7)], [(1, 8)], [(2, 9)]) := by
    decide +kernel
  obtain ⟨⟨s, trace⟩, executed, same⟩ := Option.map_eq_some_iff.mp resumed
  obtain ⟨first, rest⟩ := Prod.mk.inj same
  obtain ⟨second, third⟩ := Prod.mk.inj rest
  have run := Transitions.reachesBy_of_executeBy .start executed
  rw [List.nil_append] at run
  exact ⟨s, trace, executed, first, second, third,
    (routed_of_reachesBy (by decide) run).1⟩

/-- Two awaitables in a ring with one entry are created before they are awaited: the first is
submitted without a handle, and its handle goes into the entry of the second. -/
def lateAwaits : List (Action Bool Bool) :=
  [.create, .create, .coAwait 1 true true, .coAwait 0 false false, .submitAndWait,
    .complete 0 7, .complete 0 8, .wake, .next, .next, .next]

theorem not_routed_lateAwaits : ∃ s trace,
    Transitions.Reaches (system 1 id) (start : State Bool Bool) s trace ∧
    s.carried 1 = [] ∧ awaits 1 trace = [true] ∧ resumptions 1 trace = [] ∧
    resumptions 0 trace = [(false, 8)] ∧ completions 0 trace = [7] ∧ ¬ Routed 1 s trace := by
  have reached : (Transitions.execute (system 1 id) (start : State Bool Bool) lateAwaits).any
      (fun reached => decide (reached.1.carried 1 = [] ∧ awaits 1 reached.2 = [true] ∧
        resumptions 1 reached.2 = [] ∧ resumptions 0 reached.2 = [(false, 8)] ∧
        completions 0 reached.2 = [7])) = true := by
    decide +kernel
  obtain ⟨⟨s, trace⟩, executed, same⟩ := (Option.any_eq_true _ _).mp reached
  obtain ⟨empty, awaited, unresumed, other, completed⟩ := of_decide_eq_true same
  refine ⟨s, trace, Transitions.reaches_of_execute executed, empty, awaited, unresumed, other,
    completed, fun routed => ?_⟩
  have awaiting : .awaited 1 true ∈ trace := by
    refine mem_awaits.mp ?_
    rw [awaited]
    exact List.mem_singleton_self _
  rcases routed.routed 1 true awaiting with ⟨res, resumed, -⟩ | ⟨-, address, -, onItsWay⟩
  · rw [unresumed] at resumed
    cases resumed
  · rw [empty] at onItsWay
    cases onItsWay

end Example

end IoService

end Sheep
