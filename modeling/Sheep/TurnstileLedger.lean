/-
This file is a library for turnstiles whose passes are numbered by tickets.

A ledger counts the tickets that have been drawn from each of several counters, and what
every thread has in hand: some tickets of one counter, of which the first is the one it
is about to use. Tickets and turns are natural numbers here, so nothing ever wraps
around. Drawing tickets, entering on the first ticket in hand and leaving are moves of
the turnstile.
-/

import Mathlib.Logic.Function.Basic
import Sheep.Turnstile

namespace Turnstile

variable {Counter Place Thread Number : Type}

/-- What a thread has in hand: `count` tickets of a counter, from `first` on. Where there are none,
it only has a number in mind. -/
structure Hand (Counter Number : Type) where
  counter : Counter
  first : Number
  count : Nat

def Hand.map {Other : Type} (f : Number → Other) (hand : Hand Counter Number) :
    Hand Counter Other :=
  ⟨hand.counter, f hand.first, hand.count⟩

/-- What is left of a hand without its first ticket. -/
def Hand.Rest (hand : Hand Counter Nat) : Option (Hand Counter Nat) → Prop
  | some rest =>
      rest.counter = hand.counter ∧ rest.first = hand.first + 1 ∧ rest.count + 1 = hand.count
  | none => hand.count = 1

/-- Where a protocol with numbered passes stands. -/
structure Ledger (Counter Place Thread : Type) where
  drawn : Counter → Nat
  turn : Place → Nat
  hand : Thread → Option (Hand Counter Nat)
  inside : Thread → Bool

namespace Ledger

variable (pass : Counter → Nat → Pass Place) (ledger : Ledger Counter Place Thread)

/-- A ledger is a turnstile. -/
def board : Board Place Thread where
  turn := ledger.turn
  issued given := ∃ counter ticket, ticket < ledger.drawn counter ∧ given = pass counter ticket
  held thread given := ∃ hand, ledger.hand thread = some hand ∧ ∃ ticket, hand.first ≤ ticket ∧
    ticket < hand.first + hand.count ∧ given = pass hand.counter ticket
  inside thread given := ledger.inside thread = true ∧ ∃ hand, ledger.hand thread = some hand ∧
    given = pass hand.counter hand.first

/-- The thread has no tickets in hand. -/
def Idle (thread : Thread) : Prop :=
  ∀ hand, ledger.hand thread = some hand → hand.count = 0

/-- What threads have in hand has been drawn, and lately: the counter is less than `bound` ahead. -/
def Close (bound : Nat) : Prop :=
  ∀ thread hand, ledger.hand thread = some hand →
    hand.first + hand.count ≤ ledger.drawn hand.counter ∧
      ledger.drawn hand.counter < hand.first + bound

section Moves

variable [DecidableEq Thread] (thread : Thread)

/-- A thread without tickets changes its mind. -/
def setHand (hand : Option (Hand Counter Nat)) : Ledger Counter Place Thread :=
  { ledger with hand := Function.update ledger.hand thread hand }

/-- A thread draws the next tickets of a counter. -/
def draw [DecidableEq Counter] (counter : Counter) (count : Nat) : Ledger Counter Place Thread :=
  { ledger with
    drawn := Function.update ledger.drawn counter (ledger.drawn counter + count),
    hand := Function.update ledger.hand thread (some ⟨counter, ledger.drawn counter, count⟩) }

def enter : Ledger Counter Place Thread :=
  { ledger with inside := Function.update ledger.inside thread true }

/-- A thread leaves a place with the rest of its tickets. -/
def leave [DecidableEq Place] (place : Place) (rest : Option (Hand Counter Nat)) :
    Ledger Counter Place Thread :=
  { ledger with
    turn := Function.update ledger.turn place (ledger.turn place + 1),
    hand := Function.update ledger.hand thread rest,
    inside := Function.update ledger.inside thread false }

variable {ledger thread} {other : Thread}

theorem setHand_self (hand : Option (Hand Counter Nat)) :
    (ledger.setHand thread hand).hand thread = hand := Function.update_self ..

theorem setHand_other (different : other ≠ thread) (hand : Option (Hand Counter Nat)) :
    (ledger.setHand thread hand).hand other = ledger.hand other :=
  Function.update_of_ne different ..

theorem enter_self : (ledger.enter thread).inside thread = true := Function.update_self ..

theorem enter_other (different : other ≠ thread) :
    (ledger.enter thread).inside other = ledger.inside other := Function.update_of_ne different ..

section Draw

variable [DecidableEq Counter] {counter counter' : Counter} {count : Nat}

theorem drawn_draw_self : (ledger.draw thread counter count).drawn counter =
    ledger.drawn counter + count := Function.update_self ..

theorem drawn_draw_other (different : counter' ≠ counter) :
    (ledger.draw thread counter count).drawn counter' = ledger.drawn counter' :=
  Function.update_of_ne different ..

theorem draw_self : (ledger.draw thread counter count).hand thread =
    some ⟨counter, ledger.drawn counter, count⟩ := Function.update_self ..

theorem draw_other (different : other ≠ thread) :
    (ledger.draw thread counter count).hand other = ledger.hand other :=
  Function.update_of_ne different ..

end Draw

section Leave

variable [DecidableEq Place] {place place' : Place} {rest : Option (Hand Counter Nat)}

theorem turn_leave_self : (ledger.leave thread place rest).turn place = ledger.turn place + 1 :=
  Function.update_self ..

theorem turn_leave_other (different : place' ≠ place) :
    (ledger.leave thread place rest).turn place' = ledger.turn place' :=
  Function.update_of_ne different ..

theorem leave_self : (ledger.leave thread place rest).hand thread =
    rest := Function.update_self ..

theorem leave_other (different : other ≠ thread) :
    (ledger.leave thread place rest).hand other = ledger.hand other :=
  Function.update_of_ne different ..

theorem inside_leave_self : (ledger.leave thread place rest).inside thread = false :=
  Function.update_self ..

theorem inside_leave_other (different : other ≠ thread) :
    (ledger.leave thread place rest).inside other = ledger.inside other :=
  Function.update_of_ne different ..

end Leave

end Moves

end Ledger

variable {pass : Counter → Nat → Pass Place} {ledger : Ledger Counter Place Thread}
  {thread other : Thread} {counter : Counter} {ticket : Nat} {hand : Hand Counter Nat}

theorem not_held_of_idle (idle : ledger.Idle thread) (given : Pass Place) :
    ¬ (ledger.board pass).held thread given := by
  rintro ⟨hand, has, ticket, low, high, _⟩
  have none := idle hand has
  omega

section Moves

variable [DecidableEq Thread]

/-- What the thread has in mind makes no difference to the turnstile. -/
theorem stay_setHand {hand : Option (Hand Counter Nat)} (idle : ledger.Idle thread)
    (nothing : ∀ given, hand = some given → given.count = 0)
    (outside : ledger.inside thread = false) :
    Stay (ledger.board pass) ((ledger.setHand thread hand).board pass) where
  turn _ := rfl
  issued _ := Iff.rfl
  held other given := by
    by_cases same : other = thread
    · subst same
      have idle' : (ledger.setHand other hand).Idle other := by
        intro given has
        exact nothing given ((Ledger.setHand_self hand).symm.trans has)
      exact iff_of_false (not_held_of_idle idle' given) (not_held_of_idle idle given)
    · simp only [Ledger.board, Ledger.setHand_other same]
  inside other given := by
    by_cases same : other = thread
    · subst same
      simp only [Ledger.board, Ledger.setHand, outside, Bool.false_eq_true, false_and]
    · simp only [Ledger.board, Ledger.setHand_other same]
      exact Iff.rfl

variable [DecidableEq Counter]

/-- Passes of different tickets are different. -/
def Injective (pass : Counter → Nat → Pass Place) : Prop :=
  ∀ counter ticket counter' ticket', pass counter ticket = pass counter' ticket' →
    counter = counter' ∧ ticket = ticket'

theorem issue_draw (injective : Injective pass) (idle : ledger.Idle thread)
    (outside : ledger.inside thread = false) (counter : Counter) (count : Nat) :
    Issue thread (fun given => ∃ ticket, ledger.drawn counter ≤ ticket ∧
        ticket < ledger.drawn counter + count ∧ given = pass counter ticket)
      (ledger.board pass) ((ledger.draw thread counter count).board pass) where
  fresh := by
    rintro _ ⟨ticket, low, _, rfl⟩ ⟨counter', ticket', less, same⟩
    obtain ⟨rfl, rfl⟩ := injective _ _ _ _ same
    omega
  turn _ := rfl
  issued given := by
    constructor
    · rintro ⟨counter', ticket, less, rfl⟩
      by_cases same : counter' = counter
      · subst same
        rw [Ledger.drawn_draw_self] at less
        by_cases old : ticket < ledger.drawn counter'
        · exact .inl ⟨counter', ticket, old, rfl⟩
        · exact .inr ⟨ticket, Nat.le_of_not_lt old, less, rfl⟩
      · rw [Ledger.drawn_draw_other same] at less
        exact .inl ⟨counter', ticket, less, rfl⟩
    · rintro (⟨counter', ticket, less, rfl⟩ | ⟨ticket, _, high, rfl⟩)
      · refine ⟨counter', ticket, ?_, rfl⟩
        by_cases same : counter' = counter
        · subst same
          rw [Ledger.drawn_draw_self]
          omega
        · rwa [Ledger.drawn_draw_other same]
      · refine ⟨counter, ticket, ?_, rfl⟩
        rwa [Ledger.drawn_draw_self]
  held other given := by
    by_cases same : other = thread
    · subst same
      constructor
      · rintro ⟨hand, has, ticket, low, high, rfl⟩
        cases Ledger.draw_self.symm.trans has
        exact .inr ⟨rfl, ticket, low, high, rfl⟩
      · rintro (old | ⟨_, ticket, low, high, rfl⟩)
        · exact absurd old (not_held_of_idle idle given)
        · exact ⟨_, Ledger.draw_self, ticket, low, high, rfl⟩
    · simp only [Ledger.board, Ledger.draw_other same, same, false_and, or_false]
  inside other given := by
    by_cases same : other = thread
    · subst same
      simp only [Ledger.board, Ledger.draw, outside, Bool.false_eq_true, false_and]
    · simp only [Ledger.board, Ledger.draw_other same]
      exact Iff.rfl

omit [DecidableEq Counter] in
theorem enter_enter (has : ledger.hand thread = some hand) (some : 0 < hand.count)
    (outside : ledger.inside thread = false)
    (good : ledger.turn (pass hand.counter hand.first).place =
      (pass hand.counter hand.first).turn) :
    Enter thread (pass hand.counter hand.first) (ledger.board pass)
      ((ledger.enter thread).board pass) where
  holds := ⟨hand, has, hand.first, le_refl _, Nat.lt_add_of_pos_right some, rfl⟩
  good := good
  turn _ := rfl
  issued _ := Iff.rfl
  held _ _ := Iff.rfl
  inside other given := by
    by_cases same : other = thread
    · subst same
      simp only [Ledger.board, Ledger.enter_self, outside, Bool.false_eq_true, false_and, false_or,
        true_and]
      constructor
      · rintro ⟨hand', has', rfl⟩
        cases has.symm.trans has'
        rfl
      · rintro rfl
        exact ⟨hand, has, rfl⟩
    · simp only [Ledger.board, Ledger.enter_other same, same, false_and, or_false]
      exact Iff.rfl

omit [DecidableEq Counter] in
theorem leave_leave [DecidableEq Place] {rest : Option (Hand Counter Nat)}
    (injective : Injective pass) (has : ledger.hand thread = some hand) (left : hand.Rest rest)
    (inside : ledger.inside thread = true)
    (good : ledger.turn (pass hand.counter hand.first).place =
      (pass hand.counter hand.first).turn) :
    Leave thread (pass hand.counter hand.first) (ledger.board pass)
      ((ledger.leave thread (pass hand.counter hand.first).place rest).board pass) where
  leaves := ⟨inside, hand, has, rfl⟩
  turn := by
    show (ledger.leave thread _ rest).turn _ = _
    rw [Ledger.turn_leave_self, good]
  turn_other place different := by
    show (ledger.leave thread _ rest).turn place = _
    rw [Ledger.turn_leave_other different]
    rfl
  issued _ := Iff.rfl
  held other given := by
    by_cases same : other = thread
    · subst same
      constructor
      · rintro ⟨hand', has', ticket, low, high, rfl⟩
        cases Ledger.leave_self.symm.trans has'
        obtain ⟨counter, first, count⟩ := left
        refine ⟨⟨hand, has, ticket, by omega, by omega, by rw [counter]⟩, fun this => ?_⟩
        obtain ⟨_, same⟩ := injective _ _ _ _ this.2
        omega
      · rintro ⟨⟨hand', has', ticket, low, high, rfl⟩, others⟩
        cases has.symm.trans has'
        have different : ticket ≠ hand.first := by
          rintro rfl
          exact others ⟨rfl, rfl⟩
        cases rest with
        | none =>
          have one : hand.count = 1 := left
          omega
        | some rest =>
          obtain ⟨counter, first, count⟩ := left
          exact ⟨rest, Ledger.leave_self, ticket, by omega, by omega, by rw [counter]⟩
    · simp only [Ledger.board, Ledger.leave_other same, same, false_and, not_false_eq_true,
        and_true]
  inside other given := by
    by_cases same : other = thread
    · subst same
      simp only [Ledger.board, Ledger.inside_leave_self, Bool.false_eq_true, false_and, inside,
        true_and, false_iff, not_and, not_not]
      rintro ⟨hand', has', rfl⟩
      cases has.symm.trans has'
      rfl
    · simp only [Ledger.board, Ledger.inside_leave_other same, Ledger.leave_other same, same,
        false_and, not_false_eq_true, and_true]

end Moves

/-! ### Closeness -/

section Close

variable {bound : Nat} [DecidableEq Thread]

theorem close_setHand {hand : Option (Hand Counter Nat)} (close : ledger.Close bound)
    (new : ∀ given, hand = some given → given.first + given.count ≤ ledger.drawn given.counter ∧
      ledger.drawn given.counter < given.first + bound) :
    (ledger.setHand thread hand).Close bound := by
  intro other given has
  by_cases same : other = thread
  · subst same
    rw [Ledger.setHand_self] at has
    exact new given has
  · rw [Ledger.setHand_other same] at has
    exact close other given has

/-- Drawing tickets can only put the counter too far ahead. -/
theorem close_draw [DecidableEq Counter] {count : Nat} (close : ledger.Close bound)
    (near : ∀ other hand, (ledger.draw thread counter count).hand other = some hand →
      (ledger.draw thread counter count).drawn hand.counter < hand.first + bound) :
    (ledger.draw thread counter count).Close bound := by
  intro other hand has
  refine ⟨?_, near other hand has⟩
  by_cases same : other = thread
  · subst same
    cases Ledger.draw_self.symm.trans has
    exact (Ledger.drawn_draw_self).ge
  · rw [Ledger.draw_other same] at has
    have old := (close other hand has).1
    by_cases this : hand.counter = counter
    · rw [this, Ledger.drawn_draw_self, ← this]
      omega
    · rwa [Ledger.drawn_draw_other this]

theorem close_leave [DecidableEq Place] {place : Place} {rest : Option (Hand Counter Nat)}
    (close : ledger.Close bound) (has : ledger.hand thread = some hand) (left : hand.Rest rest) :
    (ledger.leave thread place rest).Close bound := by
  intro other given has'
  by_cases same : other = thread
  · subst same
    cases Ledger.leave_self.symm.trans has'
    obtain ⟨counter, first, count⟩ := left
    obtain ⟨drawn, near⟩ := close other hand has
    show _ ≤ ledger.drawn given.counter ∧ ledger.drawn given.counter < _
    rw [counter]
    omega
  · rw [Ledger.leave_other same] at has'
    exact close other given has'

end Close

/-- A ticket that is `bound` or more behind one that has been drawn, or is next, has been used. -/
theorem passed_of_far (orderly : Orderly (ledger.board pass)) {bound later : Nat}
    (close : ledger.Close bound) (injective : Injective pass) (positive : 0 < bound)
    (far : ticket + bound ≤ later) (drawn : later ≤ ledger.drawn counter) :
    (pass counter ticket).turn < ledger.turn (pass counter ticket).place := by
  refine (orderly.issued_kept _ ⟨counter, ticket, by omega, rfl⟩).resolve_right ?_
  rintro ⟨thread, hand, has, ticket', low, _, same⟩
  obtain ⟨rfl, rfl⟩ := injective _ _ _ _ same
  have near := (close thread hand has).2
  omega

end Turnstile
