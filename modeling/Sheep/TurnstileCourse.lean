/-
This file is a library for the question whether a thread of a ticket protocol ever
gets its turn. It does, if every pass that comes before it is issued sooner or
later and holders use their passes when they can.

Passes are ordered by a rank. A pass waits for the passes of its place with lower
turns, and for those its holder has to use first: both have lower ranks.
-/

import Sheep.Fairness
import Sheep.Turnstile

namespace Turnstile

open Transitions

variable {Place Thread : Type}

/-- The boards of a behaviour. They are in order, and nothing is turned back. -/
structure Course (board : Nat → Board Place Thread) : Prop where
  orderly : ∀ moment, Orderly (board moment)
  turns : ∀ moment place, (board moment).turn place ≤ (board (moment + 1)).turn place
  issues : ∀ moment pass, (board moment).issued pass → (board (moment + 1)).issued pass

/-- The pass has had its turn. -/
def Passed (board : Nat → Board Place Thread) (pass : Pass Place) (moment : Nat) : Prop :=
  pass.turn < (board moment).turn pass.place

/-- A thread can use the pass now: it holds it, the pass is good, and among the passes it holds
this one comes first. -/
structure Usable (board : Nat → Board Place Thread) (rank : Pass Place → Nat) (thread : Thread)
    (pass : Pass Place) (moment : Nat) : Prop where
  holds : (board moment).held thread pass
  good : (board moment).turn pass.place = pass.turn
  first : ∀ other, (board moment).held thread other → rank pass ≤ rank other

/-- Passes that are due: they are issued, and so are those they wait for. -/
structure Due (board : Nat → Board Place Thread) (rank : Pass Place → Nat)
    (due : Pass Place → Prop) : Prop where
  issued : ∀ pass, due pass → ∃ moment, (board moment).issued pass
  turn : ∀ pass turn, due pass → turn < pass.turn →
    due ⟨pass.place, turn⟩ ∧ rank ⟨pass.place, turn⟩ < rank pass
  held : ∀ moment thread pass other, due pass → (board moment).held thread pass →
    (board moment).held thread other → rank other < rank pass → due other
  unique : ∀ pass other, due pass → due other → rank pass = rank other → pass = other

variable {board : Nat → Board Place Thread} {rank : Pass Place → Nat} {due : Pass Place → Prop}

theorem Course.passed (course : Course board) (pass : Pass Place) : Stable (Passed board pass) :=
  fun moment passed => lt_of_lt_of_le passed (course.turns moment pass.place)

theorem Course.issued (course : Course board) (pass : Pass Place) :
    Stable fun moment => (board moment).issued pass :=
  fun moment => course.issues moment pass

/-- When the passes before it have had their turns, a pass is usable by the thread that holds it. -/
theorem usable_of_passed (course : Course board) (dues : Due board rank due) {pass : Pass Place}
    {moment : Nat} (isDue : due pass) (issued : (board moment).issued pass)
    (late : ¬ Passed board pass moment)
    (before : ∀ other, due other → rank other < rank pass → Passed board other moment) :
    ∃ thread, Usable board rank thread pass moment := by
  obtain ⟨thread, holds⟩ := ((course.orderly moment).issued_kept pass issued).resolve_left late
  refine ⟨thread, holds, le_antisymm (Nat.le_of_not_lt late) ?_, fun other holdsOther => ?_⟩
  · cases turn : pass.turn with
    | zero => exact Nat.zero_le _
    | succ turn' =>
      obtain ⟨earlier, less⟩ := dues.turn pass turn' isDue (turn ▸ Nat.lt_succ_self _)
      exact before _ earlier less
  · by_contra less
    have passed := before other (dues.held moment thread pass other isDue holds holdsOther
      (Nat.lt_of_not_le less)) (Nat.lt_of_not_le less)
    exact absurd ((course.orderly moment).held_ahead thread other holdsOther)
      (Nat.not_le_of_lt passed)

/-- Nobody waits for ever: where a usable pass is used sooner or later, every pass that is due has
its turn. The induction is on the rank. -/
theorem exists_passed (course : Course board) (dues : Due board rank due)
    (used : ∀ thread pass, LeadsTo (Usable board rank thread pass) (Passed board pass))
    {pass : Pass Place} (isDue : due pass) : ∃ moment, Passed board pass moment := by
  have upTo (bound : Nat) : ∀ pass, due pass → rank pass < bound →
      ∃ moment, Passed board pass moment := by
    induction bound with
    | zero => exact fun pass _ less => absurd less (Nat.not_lt_zero _)
    | succ bound inductionHypothesis =>
      intro pass isDue small
      obtain ⟨issue, issued⟩ := dues.issued pass isDue
      -- all passes of one rank, of which at most one is due
      let ranked (index moment : Nat) : Prop :=
        ∀ other, due other → rank other = index → Passed board other moment
      have stable (index : Nat) (_ : index < rank pass) : Stable (ranked index) :=
        fun moment here other isDue' same => course.passed other moment (here other isDue' same)
      have comes (index : Nat) (less : index < rank pass) : ∃ moment, ranked index moment := by
        by_cases some : ∃ other, due other ∧ rank other = index
        · obtain ⟨other, otherDue, same⟩ := some
          obtain ⟨moment, passed⟩ := inductionHypothesis other otherDue (by omega)
          refine ⟨moment, fun other' otherDue' same' => ?_⟩
          rw [dues.unique other' other otherDue' otherDue (same'.trans same.symm)]
          exact passed
        · exact ⟨0, fun other otherDue same => absurd ⟨other, otherDue, same⟩ some⟩
      obtain ⟨moment, after, all⟩ := exists_forall_of_stable stable comes issue
      by_cases passed : Passed board pass moment
      · exact ⟨moment, passed⟩
      · obtain ⟨thread, usable⟩ := usable_of_passed course dues isDue
          ((course.issued pass).of_le issued after) passed
          fun other otherDue less => all _ less other otherDue rfl
        obtain ⟨later, _, passed⟩ := used thread pass moment usable
        exact ⟨later, passed⟩
  exact upTo _ pass isDue (Nat.lt_succ_self _)

end Turnstile
