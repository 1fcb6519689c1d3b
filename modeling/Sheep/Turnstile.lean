/-
This file is a library for ticket protocols in which threads pass one after the
other through places.

Every place counts the threads that have passed. A pass names a place and the
count at which it is good. Passes are issued once; a thread that holds one may
enter the place when the count has come to it, is then alone inside, and counts
itself when it leaves. Nothing is said here about how passes are numbered or
what threads do inside.
-/

import Mathlib.Order.Nat

namespace Turnstile

variable {Place Thread : Type}

/-- A pass is good at one place, when so many threads have passed there. -/
structure Pass (Place : Type) where
  place : Place
  turn : Nat

/-- Where a protocol stands. -/
structure Board (Place Thread : Type) where
  turn : Place → Nat
  issued : Pass Place → Prop
  held : Thread → Pass Place → Prop
  inside : Thread → Pass Place → Prop

/-! ### Moves -/

/-- A thread is issued passes that are new. -/
structure Issue (thread : Thread) (passes : Pass Place → Prop) (board next : Board Place Thread) :
    Prop where
  fresh : ∀ pass, passes pass → ¬ board.issued pass
  turn : ∀ place, next.turn place = board.turn place
  issued : ∀ pass, next.issued pass ↔ board.issued pass ∨ passes pass
  held : ∀ other pass, next.held other pass ↔
    board.held other pass ∨ other = thread ∧ passes pass
  inside : ∀ other pass, next.inside other pass ↔ board.inside other pass

/-- A thread enters on a pass that has become good. -/
structure Enter (thread : Thread) (pass : Pass Place) (board next : Board Place Thread) :
    Prop where
  holds : board.held thread pass
  good : board.turn pass.place = pass.turn
  turn : ∀ place, next.turn place = board.turn place
  issued : ∀ other, next.issued other ↔ board.issued other
  held : ∀ other pass', next.held other pass' ↔ board.held other pass'
  inside : ∀ other pass', next.inside other pass' ↔
    board.inside other pass' ∨ other = thread ∧ pass' = pass

/-- A thread leaves, gives its pass away and counts itself. -/
structure Leave (thread : Thread) (pass : Pass Place) (board next : Board Place Thread) :
    Prop where
  leaves : board.inside thread pass
  turn : next.turn pass.place = pass.turn + 1
  turn_other : ∀ place, place ≠ pass.place → next.turn place = board.turn place
  issued : ∀ other, next.issued other ↔ board.issued other
  held : ∀ other pass', next.held other pass' ↔
    board.held other pass' ∧ ¬ (other = thread ∧ pass' = pass)
  inside : ∀ other pass', next.inside other pass' ↔
    board.inside other pass' ∧ ¬ (other = thread ∧ pass' = pass)

/-- Nothing happens to the board. -/
structure Stay (board next : Board Place Thread) : Prop where
  turn : ∀ place, next.turn place = board.turn place
  issued : ∀ other, next.issued other ↔ board.issued other
  held : ∀ other pass, next.held other pass ↔ board.held other pass
  inside : ∀ other pass, next.inside other pass ↔ board.inside other pass

theorem stay_refl (board : Board Place Thread) : Stay board board :=
  ⟨fun _ => rfl, fun _ => Iff.rfl, fun _ _ => Iff.rfl, fun _ _ => Iff.rfl⟩

/-- The moves of the protocol. -/
inductive Move (board next : Board Place Thread) : Prop
  | stay (move : Stay board next)
  | issue {thread : Thread} {passes : Pass Place → Prop} (move : Issue thread passes board next)
  | enter {thread : Thread} {pass : Pass Place} (move : Enter thread pass board next)
  | leave {thread : Thread} {pass : Pass Place} (move : Leave thread pass board next)

/-! ### The invariant -/

/-- Passes are issued before they are held or used, held by one thread at most, and never used
after their turn. -/
structure Orderly (board : Board Place Thread) : Prop where
  held_issued : ∀ thread pass, board.held thread pass → board.issued pass
  held_once : ∀ thread other pass, board.held thread pass → board.held other pass → thread = other
  held_ahead : ∀ thread pass, board.held thread pass → board.turn pass.place ≤ pass.turn
  inside_held : ∀ thread pass, board.inside thread pass → board.held thread pass
  inside_good : ∀ thread pass, board.inside thread pass → board.turn pass.place = pass.turn
  passed_issued : ∀ pass, pass.turn < board.turn pass.place → board.issued pass
  issued_kept : ∀ pass, board.issued pass →
    pass.turn < board.turn pass.place ∨ ∃ thread, board.held thread pass

variable {board next : Board Place Thread} {thread other : Thread} {pass pass' : Pass Place}

theorem Pass.ext_of {first second : Pass Place} (place : first.place = second.place)
    (turn : first.turn = second.turn) : first = second := by
  cases first
  cases second
  cases place
  cases turn
  rfl

/-- Mutual exclusion: at most one thread is inside a place, on one pass. -/
theorem Orderly.alone (orderly : Orderly board) (first : board.inside thread pass)
    (second : board.inside other pass') (place : pass.place = pass'.place) :
    thread = other ∧ pass = pass' := by
  have same : pass = pass' := by
    refine Pass.ext_of place ?_
    rw [← orderly.inside_good thread pass first, place, orderly.inside_good other pass' second]
  subst same
  exact ⟨orderly.held_once _ _ _ (orderly.inside_held _ _ first) (orderly.inside_held _ _ second),
    rfl⟩

/-- A pass that has not been issued has not had its turn. -/
theorem Orderly.le_of_fresh (orderly : Orderly board) (fresh : ¬ board.issued pass) :
    board.turn pass.place ≤ pass.turn :=
  not_lt.mp fun passed => fresh (orderly.passed_issued pass passed)

theorem orderly_stay (orderly : Orderly board) (move : Stay board next) : Orderly next where
  held_issued thread pass held :=
    (move.issued pass).mpr (orderly.held_issued thread pass ((move.held _ _).mp held))
  held_once thread other pass first second :=
    orderly.held_once thread other pass ((move.held _ _).mp first) ((move.held _ _).mp second)
  held_ahead thread pass held := by
    rw [move.turn]
    exact orderly.held_ahead thread pass ((move.held _ _).mp held)
  inside_held thread pass inside :=
    (move.held _ _).mpr (orderly.inside_held thread pass ((move.inside _ _).mp inside))
  inside_good thread pass inside := by
    rw [move.turn]
    exact orderly.inside_good thread pass ((move.inside _ _).mp inside)
  passed_issued pass passed := by
    rw [move.turn] at passed
    exact (move.issued pass).mpr (orderly.passed_issued pass passed)
  issued_kept pass issued := by
    rw [move.turn]
    exact (orderly.issued_kept pass ((move.issued pass).mp issued)).imp_right
      fun ⟨thread, held⟩ => ⟨thread, (move.held _ _).mpr held⟩

theorem orderly_issue {passes : Pass Place → Prop} (orderly : Orderly board)
    (move : Issue thread passes board next) : Orderly next where
  held_issued other pass held := by
    refine (move.issued pass).mpr ?_
    rcases (move.held _ _).mp held with old | ⟨_, new⟩
    · exact Or.inl (orderly.held_issued other pass old)
    · exact Or.inr new
  held_once first second pass one two := by
    rcases (move.held _ _).mp one with old | ⟨same, new⟩
    · rcases (move.held _ _).mp two with old' | ⟨_, new⟩
      · exact orderly.held_once first second pass old old'
      · exact absurd (orderly.held_issued first pass old) (move.fresh pass new)
    · rcases (move.held _ _).mp two with old | ⟨same', _⟩
      · exact absurd (orderly.held_issued second pass old) (move.fresh pass new)
      · rw [same, same']
  held_ahead other pass held := by
    rw [move.turn]
    rcases (move.held _ _).mp held with old | ⟨_, new⟩
    · exact orderly.held_ahead other pass old
    · exact orderly.le_of_fresh (move.fresh pass new)
  inside_held other pass inside :=
    (move.held _ _).mpr (Or.inl (orderly.inside_held other pass ((move.inside _ _).mp inside)))
  inside_good other pass inside := by
    rw [move.turn]
    exact orderly.inside_good other pass ((move.inside _ _).mp inside)
  passed_issued pass passed := by
    rw [move.turn] at passed
    exact (move.issued pass).mpr (Or.inl (orderly.passed_issued pass passed))
  issued_kept pass issued := by
    rw [move.turn]
    rcases (move.issued pass).mp issued with old | new
    · exact (orderly.issued_kept pass old).imp_right
        fun ⟨holder, held⟩ => ⟨holder, (move.held _ _).mpr (Or.inl held)⟩
    · exact Or.inr ⟨thread, (move.held _ _).mpr (Or.inr ⟨rfl, new⟩)⟩

theorem orderly_enter (orderly : Orderly board) (move : Enter thread pass board next) :
    Orderly next where
  held_issued other pass' held :=
    (move.issued pass').mpr (orderly.held_issued other pass' ((move.held _ _).mp held))
  held_once first second pass' one two :=
    orderly.held_once first second pass' ((move.held _ _).mp one) ((move.held _ _).mp two)
  held_ahead other pass' held := by
    rw [move.turn]
    exact orderly.held_ahead other pass' ((move.held _ _).mp held)
  inside_held other pass' inside := by
    refine (move.held _ _).mpr ?_
    rcases (move.inside _ _).mp inside with old | ⟨same, same'⟩
    · exact orderly.inside_held other pass' old
    · rw [same, same']
      exact move.holds
  inside_good other pass' inside := by
    rw [move.turn]
    rcases (move.inside _ _).mp inside with old | ⟨_, same⟩
    · exact orderly.inside_good other pass' old
    · rw [same]
      exact move.good
  passed_issued pass' passed := by
    rw [move.turn] at passed
    exact (move.issued pass').mpr (orderly.passed_issued pass' passed)
  issued_kept pass' issued := by
    rw [move.turn]
    exact (orderly.issued_kept pass' ((move.issued pass').mp issued)).imp_right
      fun ⟨holder, held⟩ => ⟨holder, (move.held _ _).mpr held⟩

/-- Leaving moves the count of one place by one. -/
theorem Leave.turn_cases [DecidableEq Place] (orderly : Orderly board)
    (move : Leave thread pass board next) (place : Place) :
    next.turn place = if place = pass.place then board.turn place + 1 else board.turn place := by
  split
  · rename_i same
    rw [same, move.turn, orderly.inside_good thread pass move.leaves]
  · rename_i other
    exact move.turn_other place other

theorem orderly_leave [DecidableEq Place] (orderly : Orderly board)
    (move : Leave thread pass board next) : Orderly next := by
  have counted := move.turn_cases orderly
  have good := orderly.inside_good thread pass move.leaves
  have holds := orderly.inside_held thread pass move.leaves
  refine ⟨fun other pass' held => ?_, fun first second pass' one two => ?_,
    fun other pass' held => ?_, fun other pass' inside => ?_, fun other pass' inside => ?_,
    fun pass' passed => ?_, fun pass' issued => ?_⟩
  · exact (move.issued pass').mpr (orderly.held_issued other pass' ((move.held _ _).mp held).1)
  · exact orderly.held_once first second pass' ((move.held _ _).mp one).1 ((move.held _ _).mp two).1
  · obtain ⟨old, notThis⟩ := (move.held _ _).mp held
    have ahead := orderly.held_ahead other pass' old
    rw [counted]
    split
    · rename_i same
      -- another holder at this place waits for a later turn
      refine lt_of_le_of_ne ahead fun equal => notThis ?_
      have samePass : pass' = pass := Pass.ext_of same (by rw [← equal, same, good])
      subst samePass
      exact ⟨orderly.held_once _ _ _ old holds, rfl⟩
    · exact ahead
  · obtain ⟨old, notThis⟩ := (move.inside _ _).mp inside
    exact (move.held _ _).mpr ⟨orderly.inside_held other pass' old, notThis⟩
  · obtain ⟨old, notThis⟩ := (move.inside _ _).mp inside
    rw [move.turn_other pass'.place]
    · exact orderly.inside_good other pass' old
    · exact fun same => notThis (orderly.alone old move.leaves same)
  · refine (move.issued pass').mpr ?_
    rw [counted] at passed
    split at passed
    · rename_i same
      rcases Nat.lt_succ_iff_lt_or_eq.mp passed with less | equal
      · exact orderly.passed_issued pass' less
      · have samePass : pass' = pass := Pass.ext_of same (by rw [equal, same, good])
        rw [samePass]
        exact orderly.held_issued thread pass holds
    · exact orderly.passed_issued pass' passed
  · rcases orderly.issued_kept pass' ((move.issued pass').mp issued) with passed | ⟨holder, held⟩
    · refine Or.inl ?_
      rw [counted]
      split
      · exact Nat.lt_succ_of_lt passed
      · exact passed
    · by_cases this : holder = thread ∧ pass' = pass
      · refine Or.inl ?_
        rw [this.2, move.turn]
        exact Nat.lt_succ_self _
      · exact Or.inr ⟨holder, (move.held _ _).mpr ⟨held, this⟩⟩

/-- Every move keeps the order. -/
theorem orderly_move [DecidableEq Place] (orderly : Orderly board) (move : Move board next) :
    Orderly next := by
  cases move with
  | stay move => exact orderly_stay orderly move
  | issue move => exact orderly_issue orderly move
  | enter move => exact orderly_enter orderly move
  | leave move => exact orderly_leave orderly move

/-- No move turns a count back. -/
theorem turn_mono [DecidableEq Place] (orderly : Orderly board) (move : Move board next)
    (place : Place) : board.turn place ≤ next.turn place := by
  cases move with
  | stay move => exact (move.turn place).ge
  | issue move => exact (move.turn place).ge
  | enter move => exact (move.turn place).ge
  | leave move =>
    rw [move.turn_cases orderly]
    split
    · exact Nat.le_succ _
    · exact le_refl _

end Turnstile
