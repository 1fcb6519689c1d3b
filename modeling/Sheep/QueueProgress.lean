/-
This file proves that producers and consumers of the queue never wait for each
other in a circle. Passes are ordered by their tickets, and the producer's pass
of a ticket comes before the consumer's. The turn at which a slot stands belongs
to a pass that some thread still holds, if it has been issued. Among all passes
that are held the least one is therefore good, and its thread does not spin.
-/

import Mathlib.Data.Nat.Find
import Sheep.QueueDelivery

namespace Sheep

open Turnstile

namespace MPMCQueue

variable {Thread Element : Type} {capacity : Capacity} {s : State Thread Element}
  {trace : List (Event Thread Element)}

/-! ### Calls in progress -/

/-- The side on which the call of a thread works, if one is in progress. -/
def Pc.side : Pc Element → Option Side
  | .idle => none
  | .fetchHead _ | .awaitFree _ _ _ | .loadHead _ | .testFree _ _ | .casHead _ _
  | .reloadHead _ _ | .construct _ _ _ | .publish _ _ => some .head
  | .fetchTail _ | .awaitFull _ _ | .loadTail _ _ | .testFull _ _ _ _ | .casTail _ _ _ _
  | .reloadTail _ _ _ _ | .read _ _ _ | .destroy _ _ | .release _ _ => some .tail

/-- The side of a call that has claimed a ticket or is bound to claim one: an operation that does
not wait claims a ticket only where its turn has come. -/
def Pc.committed : Pc Element → Option Side
  | .fetchHead _ => some .head
  | .fetchTail _ => some .tail
  | pc => pc.held.map (·.1)

/-- The thread spins: it stands at a turn that has not come. -/
def Spins (capacity : Capacity) (s : State Thread Element) : Pc Element → Prop
  | .awaitFree ticket _ _ => freeTurn capacity ticket ≠ (s.slots (getSlot capacity ticket)).turn
  | .awaitFull ticket _ => fullTurn capacity ticket ≠ (s.slots (getSlot capacity ticket)).turn
  | _ => False

theorem holds_of_spins {pc : Pc Element} {side : Side} (spins : Spins capacity s pc)
    (works : pc.side = some side) : ∃ ticket, pc.Holds side ticket := by
  cases pc with
  | awaitFree ticket write rest =>
    cases works
    exact ⟨ticket.toNat, Holds.of_held rfl ticket.toNat_lt⟩
  | awaitFull ticket change =>
    cases works
    exact ⟨ticket.toNat, Holds.of_held rfl ticket.toNat_lt⟩
  | _ => exact absurd spins id

theorem side_of_committed {pc : Pc Element} {side : Side} (committed : pc.committed = some side) :
    pc.side = some side := by
  cases pc <;> first | exact committed | cases committed

theorem committed_of_holds {pc : Pc Element} {side : Side} {ticket : Nat}
    (holds : pc.Holds side ticket) : pc.committed = some side := by
  obtain ⟨_, first, count, held, _⟩ := holds
  cases pc <;> first
    | exact congrArg (Option.map (·.1)) held
    | cases held

/-- A call in progress has a next step. -/
theorem advance_of_side [DecidableEq Thread] {thread : Thread} {side : Side}
    (works : (s.pc thread).side = some side) :
    ∃ next events, advance capacity s thread (s.pc thread) = some (next, events) := by
  cases pc : s.pc thread with
  | idle =>
    rw [pc] at works
    cases works
  | _ =>
    simp only [advance]
    try split
    all_goals exact ⟨_, _, rfl⟩

/-! ### The least pass -/

/-- The order of passes. -/
def rank (side : Side) (ticket : Nat) : Nat := 2 * ticket + side.parity

/-- The ticket that meets the slot of another one in a given lap. -/
theorem place_of_lap {ticket lap : Nat} (side side' : Side) (small : ticket < 2 ^ 64)
    (before : capacity.value.toNat * lap + ticket % capacity.value.toNat ≤ ticket) :
    (pass capacity side'
      (capacity.value.toNat * lap + ticket % capacity.value.toNat)).place =
        (pass capacity side ticket).place := by
  refine UInt64.toNat_inj.mp ?_
  rw [pass, pass, toNat_getSlot, toNat_getSlot,
    UInt64.toNat_ofNat_of_lt' (lt_of_le_of_lt before small),
    UInt64.toNat_ofNat_of_lt' small, Nat.mul_add_mod, Nat.mod_mod]

theorem turn_of_lap {ticket lap : Nat} {side : Side} :
    (pass capacity side
      (capacity.value.toNat * lap + ticket % capacity.value.toNat)).turn =
        2 * lap + side.parity := by
  rw [pass, Nat.mul_add_div capacity.pos, Nat.div_eq_of_lt (Nat.mod_lt _ capacity.pos),
    Nat.add_zero]

variable (capacity) in
/-- Every turn of a slot before the one of a ticket is the turn of an earlier pass. -/
theorem exists_earlier_pass {side : Side} {ticket turn : Nat} (small : ticket < 2 ^ 64)
    (earlier : turn < (pass capacity side ticket).turn) :
    ∃ side' ticket', pass capacity side' ticket' =
        ⟨(pass capacity side ticket).place, turn⟩ ∧ rank side' ticket' < rank side ticket := by
  have whole := Nat.div_add_mod ticket capacity.value.toNat
  have bound : turn < 2 * (ticket / capacity.value.toNat) + side.parity := earlier
  have parity : side.parity ≤ 1 := by cases side <;> decide
  have laps : turn / 2 ≤ ticket / capacity.value.toNat := by omega
  have before : capacity.value.toNat * (turn / 2) + ticket % capacity.value.toNat ≤ ticket := by
    have scaled := Nat.mul_le_mul_left capacity.value.toNat laps
    omega
  obtain ⟨side', even⟩ : ∃ side' : Side, side'.parity = turn % 2 := by
    rcases Nat.mod_two_eq_zero_or_one turn with zero | one
    · exact ⟨.head, zero.symm⟩
    · exact ⟨.tail, one.symm⟩
  refine ⟨side', capacity.value.toNat * (turn / 2) + ticket % capacity.value.toNat,
    Pass.ext_of (place_of_lap side side' small before) ?_, ?_⟩
  · rw [turn_of_lap, even]
    exact Nat.div_add_mod turn 2
  · rw [rank, rank]
    rcases Nat.lt_or_eq_of_le laps with less | same
    · have scaled := Nat.mul_le_mul_left capacity.value.toNat (Nat.succ_le_of_lt less)
      have positive := capacity.pos
      rw [Nat.mul_succ] at scaled
      omega
    · rw [same, whole]
      omega

/-- A pass that is held is good, if all earlier passes have been issued and none of them is
held. -/
theorem good_of_least (orderly : Orderly (s.board capacity)) {thread : Thread} {side : Side}
    {ticket : Nat} (holds : (s.pc thread).Holds side ticket)
    (issued : ∀ side' ticket', rank side' ticket' < rank side ticket → ticket' < s.count side')
    (least : ∀ thread' side' ticket', (s.pc thread').Holds side' ticket' →
      rank side ticket ≤ rank side' ticket') :
    (s.slots (pass capacity side ticket).place).turn.toNat = (pass capacity side ticket).turn := by
  refine le_antisymm (orderly.held_ahead thread _ ⟨side, ticket, holds, rfl⟩) ?_
  by_contra late
  obtain ⟨side', ticket', same, earlier⟩ :=
    exists_earlier_pass capacity holds.1 (Nat.lt_of_not_le late)
  have waiting := orderly.issued_kept (pass capacity side' ticket')
    ⟨side', ticket', issued _ _ earlier, rfl⟩
  rcases waiting with passed | ⟨holder, side'', ticket'', holds', samePass⟩
  · rw [same] at passed
    exact absurd passed (lt_irrefl _)
  · have bounded := lt_trans (issued _ _ earlier) (s.count_lt_size side')
    obtain ⟨rfl, rfl⟩ := pass_injective bounded holds'.1 samePass
    exact absurd (least _ _ _ holds') (Nat.not_le.mpr earlier)

/-! ### Progress -/

/-- A thread whose first pass is good does not spin. -/
theorem not_spins_of_good (orderly : Orderly (s.board capacity)) {thread : Thread} {side : Side}
    {ticket : Nat} (holds : (s.pc thread).Holds side ticket)
    (few : s.count side < 2 ^ 63)
    (first : ∀ side' ticket', (s.pc thread).Holds side' ticket' → rank side ticket ≤
      rank side' ticket')
    (good : (s.slots (pass capacity side ticket).place).turn.toNat =
      (pass capacity side ticket).turn) : ¬ Spins capacity s (s.pc thread) := by
  have claimed := lt_count_of_holds orderly holds
  obtain ⟨_, low, count, held, notBefore, _⟩ := holds
  intro spins
  cases pc : s.pc thread with
  | awaitFree i write rest =>
    rw [pc] at spins held first
    cases held
    have same : ticket = i.toNat :=
      le_antisymm (by
        have least := first .head i.toNat (Holds.of_held rfl i.toNat_lt)
        rw [rank, rank] at least
        omega) notBefore
    rw [same, pass_toNat] at good
    refine spins (UInt64.toNat_inj.mp ?_)
    rw [good, toNat_freeTurn capacity (by omega), turn_pass_head]
  | awaitFull i change =>
    rw [pc] at spins held first
    cases held
    have same : ticket = i.toNat := by omega
    rw [same, pass_toNat] at good
    refine spins (UInt64.toNat_inj.mp ?_)
    rw [good, toNat_fullTurn capacity (by omega), turn_pass_tail]
  | _ =>
    rw [pc] at spins
    exact spins

/-- Among the threads that wait on both sides, and those they wait for, one does not spin. -/
theorem exists_not_spinning (sound : Sound capacity s trace) (few : FewTickets trace)
    {producer consumer : Thread} (producing : (s.pc producer).committed = some .head)
    (consuming : (s.pc consumer).committed = some .tail) :
    ∃ thread side, (s.pc thread).committed = some side ∧ ¬ Spins capacity s (s.pc thread) := by
  by_contra none
  have spins {thread : Thread} {side : Side} (committed : (s.pc thread).committed = some side) :
      Spins capacity s (s.pc thread) := by
    by_contra moves
    exact none ⟨thread, side, committed, moves⟩
  obtain ⟨first, holdsFirst⟩ := holds_of_spins (spins producing) (side_of_committed producing)
  obtain ⟨last, holdsLast⟩ := holds_of_spins (spins consuming) (side_of_committed consuming)
  -- the least pass that any thread holds
  have held : ∃ least thread side ticket, (s.pc thread).Holds side ticket ∧
      rank side ticket = least := ⟨_, producer, .head, first, holdsFirst, rfl⟩
  classical
  obtain ⟨thread, side, ticket, holds, isLeast⟩ := Nat.find_spec held
  have least (thread' : Thread) (side' : Side) (ticket' : Nat)
      (holds' : (s.pc thread').Holds side' ticket') : rank side ticket ≤ rank side' ticket' := by
    rw [isLeast]
    exact Nat.find_min' held ⟨thread', side', ticket', holds', rfl⟩
  have issued (side' : Side) (ticket' : Nat) (earlier : rank side' ticket' < rank side ticket) :
      ticket' < s.count side' := by
    cases side' with
    | head =>
      have claimed := lt_count_of_holds sound.orderly holdsFirst
      have before := lt_of_lt_of_le earlier (least _ _ _ holdsFirst)
      rw [rank, rank] at before
      omega
    | tail =>
      have claimed := lt_count_of_holds sound.orderly holdsLast
      have before := lt_of_lt_of_le earlier (least _ _ _ holdsLast)
      rw [rank, rank] at before
      omega
  exact not_spins_of_good sound.orderly holds (sound.count_lt few side) (least thread)
    (good_of_least sound.orderly holds issued least) (spins (committed_of_holds holds))

/-- Where a producer call and a consumer call are in progress, some call in progress has a step
that is not a failed test of a turn. -/
theorem progress_of_reaches [DecidableEq Thread] {moved : Element → Element}
    {bytes : UInt64 → Element}
    (run : Transitions.Reaches (system capacity moved) (start bytes) s trace)
    (few : FewTickets trace) {producer consumer : Thread}
    (producing : (s.pc producer).side = some .head)
    (consuming : (s.pc consumer).side = some .tail) :
    ∃ thread, ¬ Spins capacity s (s.pc thread) ∧
      ∃ next events, system capacity moved s (.step thread) = some (next, events) := by
  have sound := sound_of_reaches run few
  by_contra none
  have spins {thread : Thread} {side : Side} (works : (s.pc thread).side = some side) :
      Spins capacity s (s.pc thread) := by
    by_contra moves
    exact none ⟨thread, moves, advance_of_side works⟩
  have committed {thread : Thread} {side : Side} (works : (s.pc thread).side = some side) :
      (s.pc thread).committed = some side := by
    obtain ⟨ticket, holds⟩ := holds_of_spins (spins works) works
    exact committed_of_holds holds
  obtain ⟨thread, side, works, moves⟩ :=
    exists_not_spinning sound few (committed producing) (committed consuming)
  exact moves (spins (side_of_committed works))

section Example

/-- In a queue with one slot a thread that pushes two elements at once has published the first and
waits for the second, and another one has fetched a ticket to pop. -/
def standoff : List (Action Bool Nat) :=
  [.call false (.bulkPush [7, 8]), .step false, .step false, .step false, .step false,
    .step false, .call true .pop, .step true]

def stoodOff : List (Event Bool Nat) :=
  [.called false (.bulkPush [7, 8]), .claimedHead false 0 2, .constructed false 0 7,
    .called true .pop, .claimedTail true 0]

theorem progress_standoff : ∃ s,
    Transitions.execute (system oneSlot id) (start fun _ => 0) standoff = some (s, stoodOff) ∧
    ∃ thread, ¬ Spins oneSlot s (s.pc thread) ∧
      ∃ next events, system oneSlot id s (.step thread) = some (next, events) := by
  have traced : (Transitions.execute (system oneSlot id) (start fun _ => 0) standoff).map
      (fun reached => ((reached.1.pc false).side, (reached.1.pc true).side, reached.2)) =
        some (some .head, some .tail, stoodOff) := rfl
  obtain ⟨⟨s, _⟩, executed, same⟩ := Option.map_eq_some_iff.mp traced
  obtain ⟨producing, same⟩ := Prod.mk.inj same
  obtain ⟨consuming, rfl⟩ := Prod.mk.inj same
  refine ⟨s, executed, progress_of_reaches (Transitions.reaches_of_execute executed) ?_
    producing consuming⟩
  intro side
  cases side <;> decide

end Example

end MPMCQueue

end Sheep
