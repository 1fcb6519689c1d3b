/-
This file numbers the tickets of a running queue without wrapping around. In every run
in which no thread falls `2 ^ 63` tickets behind, a ledger of natural numbers goes along
with the queue: its counters, tickets and turns are what those of 64 bits stand for, and
every step of a thread is a move of its turnstile.
-/

import Sheep.QueueMoves
import Sheep.QueueWrap

namespace Sheep

open Turnstile

namespace MPMCQueue

variable {Thread Element : Type}

/-! ### What threads have in hand -/

/-- The ticket in the local variables of a thread, and how many from it on the thread has
claimed. -/
def Pc.carried : Pc Element → Option (Hand Side UInt64)
  | .awaitFree ticket _ rest => some ⟨.head, ticket, rest.length + 1⟩
  | .testFree ticket _ => some ⟨.head, ticket, 0⟩
  | .casHead ticket _ => some ⟨.head, ticket, 0⟩
  | .reloadHead ticket _ => some ⟨.head, ticket, 0⟩
  | .construct ticket _ after => some ⟨.head, ticket, after.left + 1⟩
  | .publish ticket after => some ⟨.head, ticket, after.left + 1⟩
  | .awaitFull ticket _ => some ⟨.tail, ticket, 1⟩
  | .testFull _ _ ticket _ => some ⟨.tail, ticket, 0⟩
  | .casTail _ _ ticket _ => some ⟨.tail, ticket, 0⟩
  | .reloadTail _ _ ticket _ => some ⟨.tail, ticket, 0⟩
  | .read ticket _ _ => some ⟨.tail, ticket, 1⟩
  | .destroy ticket _ => some ⟨.tail, ticket, 1⟩
  | .release ticket _ => some ⟨.tail, ticket, 1⟩
  | _ => none

def State.counter (s : State Thread Element) : Side → UInt64
  | .head => s.head
  | .tail => s.tail

/-- The tickets that threads have in hand are less than `2 ^ 63` behind the head or the tail. -/
def State.Near (s : State Thread Element) : Prop :=
  ∀ thread hand, (s.pc thread).carried = some hand →
    hand.count ≤ (s.counter hand.counter - hand.first).toNat ∧
      (s.counter hand.counter - hand.first).toNat < 2 ^ 63

/-- A ledger says what a thread has in hand. -/
structure Carries (capacity : Capacity) (ledger : Ledger Side UInt64 Thread) (thread : Thread)
    (pc : Pc Element) : Prop where
  hand : pc.carried = (ledger.hand thread).map (Hand.map UInt64.ofNat)
  inside : ledger.inside thread = pc.window.isSome
  matched : pc.matched.isSome = true → ∀ hand, ledger.hand thread = some hand →
    (pass capacity hand.counter hand.first).turn ≤
      ledger.turn (pass capacity hand.counter hand.first).place

/-- A ledger numbers the tickets and turns of a queue. -/
structure Numbered (capacity : Capacity) (s : State Thread Element)
    (ledger : Ledger Side UInt64 Thread) : Prop where
  counters : ∀ side, s.counter side = UInt64.ofNat (ledger.drawn side)
  turns : ∀ index, (s.slots index).turn = turnAt capacity (ledger.turn index)
  carries : ∀ thread, Carries capacity ledger thread (s.pc thread)
  orderly : Orderly (ledger.board (pass capacity))
  close : ledger.Close (2 ^ 63)

/-- The ledger of a new queue. -/
def blank : Ledger Side UInt64 Thread where
  drawn _ := 0
  turn _ := 0
  hand _ := none
  inside _ := false

theorem numbered_start (capacity : Capacity) (bytes : UInt64 → Element) :
    Numbered capacity (start bytes : State Thread Element) blank := by
  refine ⟨fun side => ?_, fun index => ?_, fun thread => ⟨rfl, rfl, fun none => ?_⟩,
    ⟨?_, ?_, ?_, ?_, ?_, ?_, ?_⟩, ?_⟩
  · cases side <;> rfl
  · exact (turnAt_zero capacity).symm
  · cases none
  · rintro thread given ⟨hand, has, _⟩
    cases has
  · rintro thread other given ⟨hand, has, _⟩
    cases has
  · exact fun thread given _ => Nat.zero_le _
  · rintro thread given ⟨inside, _⟩
    cases inside
  · rintro thread given ⟨inside, _⟩
    cases inside
  · exact fun given passed => absurd passed (Nat.not_lt_zero _)
  · rintro given ⟨side, ticket, less, _⟩
    exact absurd less (Nat.not_lt_zero _)
  · intro thread hand has
    cases has

section Carries

variable {capacity : Capacity} {ledger ledger' : Ledger Side UInt64 Thread} {thread : Thread}
  {pc : Pc Element}

/-- A step of another thread. -/
theorem Carries.other (carries : Carries capacity ledger thread pc)
    (hand : ledger'.hand thread = ledger.hand thread)
    (inside : ledger'.inside thread = ledger.inside thread)
    (turn : ∀ index, ledger.turn index ≤ ledger'.turn index) :
    Carries capacity ledger' thread pc where
  hand := by
    rw [hand]
    exact carries.hand
  inside := inside.trans carries.inside
  matched matched given has := by
    rw [hand] at has
    exact Nat.le_trans (carries.matched matched given has) (turn _)

/-- What the local variables say about the ledger. -/
theorem Carries.exists_hand {side : Side} {ticket : UInt64} {count : Nat}
    (carries : Carries capacity ledger thread pc)
    (carried : pc.carried = some ⟨side, ticket, count⟩) :
    ∃ first, ledger.hand thread = some ⟨side, first, count⟩ ∧ ticket = UInt64.ofNat first := by
  have both := carries.hand
  rw [carried] at both
  obtain ⟨⟨side', first, count'⟩, has, same⟩ := Option.map_eq_some_iff.mp both.symm
  cases same
  exact ⟨first, has, rfl⟩

theorem Carries.idle (carries : Carries capacity ledger thread pc)
    (nothing : ∀ hand, pc.carried = some hand → hand.count = 0) : ledger.Idle thread := by
  intro hand has
  refine nothing (hand.map UInt64.ofNat) ?_
  rw [carries.hand, has]
  rfl

theorem Carries.outside (carries : Carries capacity ledger thread pc) (window : pc.window = none) :
    ledger.inside thread = false := by
  rw [carries.inside, window]
  rfl

end Carries

/-- How far a counter is ahead of a ticket. -/
theorem toNat_ofNat_sub {first drawn : Nat} (le : first ≤ drawn) :
    (UInt64.ofNat drawn - UInt64.ofNat first).toNat = (drawn - first) % 2 ^ 64 := by
  rw [UInt64.toNat_sub, UInt64.toNat_ofNat', UInt64.toNat_ofNat']
  omega

section Moves

variable [DecidableEq Thread] {capacity : Capacity} {s next : State Thread Element}
  {ledger ledger' : Ledger Side UInt64 Thread} {thread : Thread} {pc : Pc Element}

/-- What has to be known of a step of a thread. -/
theorem Numbered.of_thread (numbered : Numbered capacity s ledger) (thread : Thread)
    (counters : ∀ side, next.counter side = UInt64.ofNat (ledger'.drawn side))
    (turns : ∀ index, (next.slots index).turn = turnAt capacity (ledger'.turn index))
    (others : ∀ other, other ≠ thread → next.pc other = s.pc other ∧
      ledger'.hand other = ledger.hand other ∧ ledger'.inside other = ledger.inside other)
    (later : ∀ index, ledger.turn index ≤ ledger'.turn index)
    (self : Carries capacity ledger' thread (next.pc thread))
    (orderly : Orderly (ledger'.board (pass capacity))) (close : ledger'.Close (2 ^ 63)) :
    Numbered capacity next ledger' := by
  refine ⟨counters, turns, fun other => ?_, orderly, close⟩
  by_cases same : other = thread
  · rw [same]
    exact self
  · obtain ⟨pc, hand, inside⟩ := others other same
    rw [pc]
    exact (numbered.carries other).other hand inside later

/-- A thread without tickets goes on without tickets. -/
theorem numbered_setHand {hand : Option (Hand Side Nat)} (numbered : Numbered capacity s ledger)
    (nothing : ∀ given, (s.pc thread).carried = some given → given.count = 0)
    (outside : (s.pc thread).window = none)
    (carried : pc.carried = hand.map (Hand.map UInt64.ofNat)) (outside' : pc.window = none)
    (seen : ∀ given, hand = some given → given.count = 0 ∧
      given.first ≤ ledger.drawn given.counter ∧
      ledger.drawn given.counter < given.first + 2 ^ 63 ∧
      (pc.matched.isSome = true → (pass capacity given.counter given.first).turn ≤
        ledger.turn (pass capacity given.counter given.first).place)) :
    Numbered capacity (s.setPc thread pc) (ledger.setHand thread hand) := by
  have carries := numbered.carries thread
  have stay : Stay (ledger.board (pass capacity))
      ((ledger.setHand thread hand).board (pass capacity)) :=
    stay_setHand (carries.idle nothing) (fun given has => (seen given has).1)
      (carries.outside outside)
  refine numbered.of_thread thread numbered.counters numbered.turns
    (fun other different => ⟨State.setPc_pc_other _ _ _ different,
      Ledger.setHand_other different hand, rfl⟩) (fun index => Nat.le_refl _) ?_
    (orderly_stay numbered.orderly stay) (close_setHand numbered.close fun given has => ?_)
  · rw [State.setPc_pc_self]
    refine ⟨?_, ?_, fun matched given has => ?_⟩
    · rw [Ledger.setHand_self]
      exact carried
    · rw [outside']
      exact carries.outside outside
    · rw [Ledger.setHand_self] at has
      exact (seen given has).2.2.2 matched
  · obtain ⟨none, le, near, _⟩ := seen given has
    exact ⟨by omega, near⟩

/-- A thread draws the next tickets of a counter, and so many that nobody is left behind. -/
theorem close_of_near {side : Side} {count : Nat} (numbered : Numbered capacity s ledger)
    (counters : ∀ side', next.counter side' =
      UInt64.ofNat ((ledger.draw thread side count).drawn side'))
    (others : ∀ other, other ≠ thread → next.pc other = s.pc other)
    (carried : (next.pc thread).carried = some ⟨side, s.counter side, count⟩) (near : next.Near) :
    (ledger.draw thread side count).Close (2 ^ 63) := by
  have own := near thread _ carried
  have drawn : next.counter side = UInt64.ofNat (ledger.drawn side + count) := by
    rw [counters, Ledger.drawn_draw_self]
  have few : count < 2 ^ 63 := by
    dsimp only at own
    rw [drawn, numbered.counters, toNat_ofNat_sub (Nat.le_add_right _ _)] at own
    omega
  refine close_draw numbered.close fun other hand has => ?_
  by_cases same : other = thread
  · subst same
    cases Ledger.draw_self.symm.trans has
    rw [Ledger.drawn_draw_self]
    exact Nat.add_lt_add_left few _
  · rw [Ledger.draw_other same] at has
    obtain ⟨le, close⟩ := numbered.close other hand has
    by_cases this : hand.counter = side
    · have carried' : (next.pc other).carried = some (hand.map UInt64.ofNat) := by
        rw [others other same, (numbered.carries other).hand, has]
        rfl
      have behind := (near other _ carried').2
      dsimp only [Hand.map] at behind
      rw [this] at le close behind
      rw [drawn, toNat_ofNat_sub (by omega)] at behind
      rw [this, Ledger.drawn_draw_self]
      omega
    · rw [Ledger.drawn_draw_other this]
      exact close

/-- The counters after a thread has drawn tickets. -/
theorem counters_draw {side : Side} {count : Nat} (numbered : Numbered capacity s ledger)
    (counter : next.counter side = s.counter side + UInt64.ofNat count)
    (counter_other : ∀ other, other ≠ side → next.counter other = s.counter other) (side' : Side) :
    next.counter side' = UInt64.ofNat ((ledger.draw thread side count).drawn side') := by
  by_cases this : side' = side
  · subst this
    rw [counter, numbered.counters, Ledger.drawn_draw_self, UInt64.ofNat_add]
  · rw [counter_other side' this, numbered.counters, Ledger.drawn_draw_other this]

theorem orderly_draw {side : Side} {count : Nat} (numbered : Numbered capacity s ledger)
    (nothing : ∀ given, (s.pc thread).carried = some given → given.count = 0)
    (outside : (s.pc thread).window = none) :
    Orderly ((ledger.draw thread side count).board (pass capacity)) :=
  orderly_issue numbered.orderly (issue_draw (injective_pass capacity)
    ((numbered.carries thread).idle nothing) ((numbered.carries thread).outside outside) side count)

/-- A thread draws tickets and waits. -/
theorem numbered_draw {side : Side} {count : Nat} (numbered : Numbered capacity s ledger)
    (nothing : ∀ given, (s.pc thread).carried = some given → given.count = 0)
    (outside : (s.pc thread).window = none)
    (counter : next.counter side = s.counter side + UInt64.ofNat count)
    (counter_other : ∀ other, other ≠ side → next.counter other = s.counter other)
    (slots : next.slots = s.slots) (pcs : next.pc = (s.setPc thread pc).pc)
    (carried : pc.carried = some ⟨side, s.counter side, count⟩) (outside' : pc.window = none)
    (matched : pc.matched = none) (near : next.Near) :
    Numbered capacity next (ledger.draw thread side count) := by
  have self : next.pc thread = pc := by rw [pcs, State.setPc_pc_self]
  have others (other : Thread) (different : other ≠ thread) : next.pc other = s.pc other := by
    rw [pcs, State.setPc_pc_other _ _ _ different]
  have counters (side' : Side) : next.counter side' =
      UInt64.ofNat ((ledger.draw thread side count).drawn side') :=
    counters_draw numbered counter counter_other side'
  refine numbered.of_thread thread counters
    (fun index => by rw [slots]; exact numbered.turns index)
    (fun other different => ⟨others other different, Ledger.draw_other different, rfl⟩)
    (fun index => Nat.le_refl _) ?_ (orderly_draw numbered nothing outside)
    (close_of_near numbered counters others (by rw [self, carried]) near)
  rw [self]
  refine ⟨?_, ?_, fun some => ?_⟩
  · rw [carried, Ledger.draw_self, numbered.counters]
    rfl
  · rw [outside']
    exact (numbered.carries thread).outside outside
  · rw [matched] at some
    cases some

/-- A thread draws a ticket whose turn it is, and goes on. -/
theorem numbered_win {side : Side} (numbered : Numbered capacity s ledger)
    (nothing : ∀ given, (s.pc thread).carried = some given → given.count = 0)
    (outside : (s.pc thread).window = none)
    (counter : next.counter side = s.counter side + 1)
    (counter_other : ∀ other, other ≠ side → next.counter other = s.counter other)
    (slots : next.slots = s.slots) (pcs : next.pc = (s.setPc thread pc).pc)
    (carried : pc.carried = some ⟨side, s.counter side, 1⟩) (inside : pc.window.isSome = true)
    (matched : pc.matched = none) (near : next.Near)
    (good : ledger.turn (pass capacity side (ledger.drawn side)).place =
      (pass capacity side (ledger.drawn side)).turn) :
    Numbered capacity next ((ledger.draw thread side 1).enter thread) := by
  have self : next.pc thread = pc := by rw [pcs, State.setPc_pc_self]
  have others (other : Thread) (different : other ≠ thread) : next.pc other = s.pc other := by
    rw [pcs, State.setPc_pc_other _ _ _ different]
  have counters (side' : Side) : next.counter side' =
      UInt64.ofNat ((ledger.draw thread side 1).drawn side') :=
    counters_draw numbered counter counter_other side'
  have enters : Enter thread (pass capacity side (ledger.drawn side))
      ((ledger.draw thread side 1).board (pass capacity))
      (((ledger.draw thread side 1).enter thread).board (pass capacity)) :=
    enter_enter Ledger.draw_self Nat.one_pos ((numbered.carries thread).outside outside) good
  refine numbered.of_thread thread counters
    (fun index => by rw [slots]; exact numbered.turns index)
    (fun other different => ⟨others other different, Ledger.draw_other different,
      Ledger.enter_other different⟩)
    (fun index => Nat.le_refl _) ?_
    (orderly_enter (orderly_draw numbered nothing outside) enters)
    (close_of_near numbered counters others (by rw [self, carried]) near)
  rw [self]
  refine ⟨?_, ?_, fun some => ?_⟩
  · rw [carried]
    show _ = ((ledger.draw thread side 1).hand thread).map _
    rw [Ledger.draw_self, numbered.counters]
    rfl
  · rw [Ledger.enter_self, inside]
  · rw [matched] at some
    cases some

/-- A thread goes on with its ticket when it is its turn. -/
theorem numbered_enter {hand : Hand Side Nat} (numbered : Numbered capacity s ledger)
    (has : ledger.hand thread = some hand) (some : 0 < hand.count)
    (outside : (s.pc thread).window = none) (carried : pc.carried = (s.pc thread).carried)
    (inside : pc.window.isSome = true) (matched : pc.matched = none)
    (good : ledger.turn (pass capacity hand.counter hand.first).place =
      (pass capacity hand.counter hand.first).turn) :
    Numbered capacity (s.setPc thread pc) (ledger.enter thread) := by
  have carries := numbered.carries thread
  have enters : Enter thread (pass capacity hand.counter hand.first)
      (ledger.board (pass capacity)) ((ledger.enter thread).board (pass capacity)) :=
    enter_enter has some (carries.outside outside) good
  refine numbered.of_thread thread numbered.counters numbered.turns
    (fun other different => ⟨State.setPc_pc_other _ _ _ different, rfl,
      Ledger.enter_other different⟩) (fun index => Nat.le_refl _) ?_
    (orderly_enter numbered.orderly enters) numbered.close
  rw [State.setPc_pc_self]
  refine ⟨carried.trans carries.hand, ?_, fun some => ?_⟩
  · rw [Ledger.enter_self, inside]
  · rw [matched] at some
    cases some

/-- A thread that is inside does something to its slot. -/
theorem numbered_touch {index : UInt64} {slot : Slot Element}
    (numbered : Numbered capacity s ledger)
    (turn : slot.turn = (s.slots index).turn) (carried : pc.carried = (s.pc thread).carried)
    (inside : (s.pc thread).window.isSome = true) (inside' : pc.window.isSome = true)
    (matched : pc.matched = none) :
    Numbered capacity ((s.setSlot index slot).setPc thread pc) ledger := by
  have carries := numbered.carries thread
  refine numbered.of_thread thread numbered.counters (fun other => ?_)
    (fun other different => ⟨State.setPc_pc_other _ _ _ different, rfl, rfl⟩)
    (fun index => Nat.le_refl _) ?_ numbered.orderly numbered.close
  · rw [State.setPc_slots, ← numbered.turns]
    by_cases this : other = index
    · rw [this, State.setSlot_slots_self, turn]
    · rw [State.setSlot_slots_other _ _ _ this]
  · rw [State.setPc_pc_self]
    refine ⟨carried.trans carries.hand, ?_, fun some => ?_⟩
    · rw [carries.inside, inside, inside']
    · rw [matched] at some
      cases some

/-- A thread stores the next turn of its slot and goes on with the rest of its tickets. -/
theorem numbered_leave (slot : Slot Element) {hand : Hand Side Nat}
    {rest : Option (Hand Side Nat)} (numbered : Numbered capacity s ledger)
    (has : ledger.hand thread = some hand) (left : hand.Rest rest)
    (inside : (s.pc thread).window.isSome = true)
    (turn : slot.turn = turnAt capacity ((pass capacity hand.counter hand.first).turn + 1))
    (carried : pc.carried = rest.map (Hand.map UInt64.ofNat)) (outside : pc.window = none)
    (matched : pc.matched = none) :
    Numbered capacity
      ((s.setSlot (pass capacity hand.counter hand.first).place slot).setPc thread pc)
      (ledger.leave thread (pass capacity hand.counter hand.first).place rest) := by
  have inside' : ledger.inside thread = true := (numbered.carries thread).inside.trans inside
  have good := numbered.orderly.inside_good thread _ ⟨inside', hand, has, rfl⟩
  have leaves : Leave thread (pass capacity hand.counter hand.first)
      (ledger.board (pass capacity)) ((ledger.leave thread
        (pass capacity hand.counter hand.first).place rest).board (pass capacity)) :=
    leave_leave (injective_pass capacity) has left inside' good
  refine numbered.of_thread thread numbered.counters (fun index => ?_)
    (fun other different => ⟨State.setPc_pc_other _ _ _ different, Ledger.leave_other different,
      Ledger.inside_leave_other different⟩) (turn_mono numbered.orderly (.leave leaves)) ?_
    (orderly_leave numbered.orderly leaves) (close_leave numbered.close has left)
  · rw [State.setPc_slots]
    by_cases this : index = (pass capacity hand.counter hand.first).place
    · rw [this, State.setSlot_slots_self, turn, Ledger.turn_leave_self]
      exact congrArg (turnAt capacity) (congrArg (· + 1) good.symm)
    · rw [State.setSlot_slots_other _ _ _ this, Ledger.turn_leave_other this]
      exact numbered.turns index
  · rw [State.setPc_pc_self]
    refine ⟨?_, ?_, fun some => ?_⟩
    · rw [Ledger.leave_self, carried]
    · rw [Ledger.inside_leave_self, outside]
      rfl
    · rw [matched] at some
      cases some

end Moves

end MPMCQueue

end Sheep
