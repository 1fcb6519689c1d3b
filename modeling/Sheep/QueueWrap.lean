/-
This file follows the tickets and turns of a queue over the end of their 64 bits. It
numbers them without wrapping around: the turn of a slot is `turnAt` the number of times
that it has been stored. As the capacity divides `2 ^ 64`, tickets go around in a whole
number of laps, and a consumer of the last lap leaves the turn of the first. Two tickets
of a slot wait for the same turn only if they are a multiple of `2 ^ 63` apart.
-/

import Mathlib.Data.Nat.ModEq
import Sheep.QueueTurns
import Sheep.TurnstileLedger

namespace Sheep

open Turnstile

namespace MPMCQueue

section Laps

variable (capacity : Capacity)

/-- In how many laps the tickets go around. -/
def Capacity.laps : Nat := 2 ^ 64 / capacity.value.toNat

theorem Capacity.dvd : capacity.value.toNat ∣ 2 ^ 64 := by
  obtain ⟨exponent, small, same⟩ := capacity.isPower
  rw [same]
  exact Nat.pow_dvd_pow 2 (Nat.le_of_lt small)

theorem Capacity.mul_laps : capacity.value.toNat * capacity.laps = 2 ^ 64 :=
  Nat.mul_div_cancel' capacity.dvd

theorem Capacity.laps_pos : 0 < capacity.laps :=
  Nat.div_pos (Nat.le_trans capacity.le (by decide)) capacity.pos

/-- The turn of a slot whose turn has been stored so many times. -/
def turnAt (turn : Nat) : UInt64 :=
  let ticket := UInt64.ofNat (capacity.value.toNat * (turn / 2))
  if turn % 2 = 0 then freeTurn capacity ticket else fullTurn capacity ticket

/-! ### Turns by their laps -/

/-- Tickets of `2 ^ 64` and more are in the laps that follow. -/
theorem toNat_turn_ofNat (ticket : Nat) : (turn capacity (UInt64.ofNat ticket)).toNat =
    ticket / capacity.value.toNat % capacity.laps := by
  rw [toNat_turn, UInt64.toNat_ofNat', ← capacity.mul_laps, Nat.mod_mul_right_div_self]

theorem turn_eq_of_lap {first second : Nat}
    (lap : first / capacity.value.toNat = second / capacity.value.toNat) :
    turn capacity (UInt64.ofNat first) = turn capacity (UInt64.ofNat second) := by
  rw [← UInt64.toNat_inj, toNat_turn_ofNat, toNat_turn_ofNat, lap]

theorem toNat_freeTurn_ofNat (ticket : Nat) : (freeTurn capacity (UInt64.ofNat ticket)).toNat =
    2 * (ticket / capacity.value.toNat % capacity.laps) % 2 ^ 64 := by
  rw [freeTurn, UInt64.toNat_mul, toNat_turn_ofNat, Nat.mul_comm]
  rfl

theorem toNat_fullTurn_ofNat (ticket : Nat) : (fullTurn capacity (UInt64.ofNat ticket)).toNat =
    2 * (ticket / capacity.value.toNat % capacity.laps) % 2 ^ 64 + 1 := by
  rw [fullTurn, UInt64.toNat_add]
  show ((freeTurn capacity (UInt64.ofNat ticket)).toNat + 1) % 2 ^ 64 = _
  rw [toNat_freeTurn_ofNat]
  omega

theorem turnAt_zero : turnAt capacity 0 = 0 := by
  rw [← UInt64.toNat_inj, turnAt, if_pos rfl, toNat_freeTurn_ofNat, Nat.zero_div, Nat.mul_zero,
    Nat.zero_div, Nat.zero_mod]
  rfl

variable {capacity}

theorem freeTurn_ofNat (ticket : Nat) : freeTurn capacity (UInt64.ofNat ticket) =
    turnAt capacity (2 * (ticket / capacity.value.toNat)) := by
  rw [turnAt, Nat.mul_mod_right, if_pos rfl, Nat.mul_div_cancel_left _ Nat.two_pos]
  exact congrArg (· * 2) (turn_eq_of_lap capacity (Nat.mul_div_cancel_left _ capacity.pos).symm)

theorem fullTurn_ofNat (ticket : Nat) : fullTurn capacity (UInt64.ofNat ticket) =
    turnAt capacity (2 * (ticket / capacity.value.toNat) + 1) := by
  have half : (2 * (ticket / capacity.value.toNat) + 1) / 2 = ticket / capacity.value.toNat := by
    omega
  rw [turnAt, if_neg (by omega), half]
  exact congrArg (· * 2 + 1)
    (turn_eq_of_lap capacity (Nat.mul_div_cancel_left _ capacity.pos).symm)

/-- The last turn is that of the last lap. -/
theorem toNat_turn_maxTicket : (turn capacity maxTicket).toNat = capacity.laps - 1 := by
  have whole := capacity.mul_laps
  have positive := capacity.pos
  obtain ⟨laps, same⟩ := Nat.exists_eq_add_one_of_ne_zero (Nat.ne_of_gt capacity.laps_pos)
  rw [same, Nat.mul_add_one] at whole
  rw [toNat_turn, same, Nat.add_sub_cancel]
  show (2 ^ 64 - 1) / capacity.value.toNat = laps
  refine Nat.div_eq_of_lt_le ?_ ?_
  · rw [Nat.mul_comm]
    omega
  · rw [Nat.mul_comm, Nat.mul_add_one]
    omega

/-- The turn that a consumer leaves is the one that the producer of the next lap waits for, also
where this one is the first of the laps again. -/
theorem releasedTurn_ofNat (ticket : Nat) : releasedTurn capacity (UInt64.ofNat ticket) =
    turnAt capacity (2 * (ticket / capacity.value.toNat) + 2) := by
  have next : turnAt capacity (2 * (ticket / capacity.value.toNat) + 2) =
      freeTurn capacity (UInt64.ofNat (ticket + capacity.value.toNat)) := by
    rw [freeTurn_ofNat, Nat.add_div_right _ capacity.pos]
    rfl
  have positive := capacity.laps_pos
  have less := Nat.mod_lt (ticket / capacity.value.toNat) positive
  have lap := toNat_turn_ofNat capacity ticket
  rw [next, ← UInt64.toNat_inj, toNat_freeTurn_ofNat, Nat.add_div_right _ capacity.pos,
    ← Nat.mod_add_mod, releasedTurn]
  by_cases last : turn capacity (UInt64.ofNat ticket) = turn capacity maxTicket
  · rw [last, toNat_turn_maxTicket] at lap
    rw [if_pos last, ← lap, Nat.sub_add_cancel positive, Nat.mod_self]
    rfl
  · rw [if_neg last, UInt64.toNat_add]
    show ((freeTurn capacity (UInt64.ofNat ticket)).toNat + 2) % 2 ^ 64 = _
    have inner : ticket / capacity.value.toNat % capacity.laps + 1 < capacity.laps := by
      refine lt_of_le_of_ne less fun same => last ?_
      rw [← UInt64.toNat_inj, toNat_turn_maxTicket, lap]
      omega
    rw [toNat_freeTurn_ofNat, Nat.mod_eq_of_lt inner]
    omega

/-- Only turns that belong to tickets a multiple of `2 ^ 63` apart are the same. -/
theorem turnAt_congr {first second : Nat} (same : turnAt capacity first = turnAt capacity second) :
    first % 2 = second % 2 ∧
      capacity.value.toNat * (first / 2) ≡ capacity.value.toNat * (second / 2) [MOD 2 ^ 63] := by
  have values (n : Nat) : (turnAt capacity n).toNat =
      2 * (n / 2 % capacity.laps) % 2 ^ 64 + n % 2 := by
    rw [turnAt]
    by_cases even : n % 2 = 0
    · rw [if_pos even, even, toNat_freeTurn_ofNat, Nat.mul_div_cancel_left _ capacity.pos]
      rfl
    · rw [if_neg even, toNat_fullTurn_ofNat, Nat.mul_div_cancel_left _ capacity.pos]
      omega
  have equal := congrArg UInt64.toNat same
  rw [values, values] at equal
  refine ⟨by omega, ?_⟩
  have doubled : 2 * (first / 2 % capacity.laps) ≡ 2 * (second / 2 % capacity.laps)
      [MOD 2 ^ 64] := by
    show _ % _ = _ % _
    omega
  -- times the capacity, the laps are tickets
  have tickets (lap : Nat) : capacity.value.toNat * (2 * (lap % capacity.laps)) =
      2 * (capacity.value.toNat * lap % 2 ^ 64) := by
    rw [← capacity.mul_laps, Nat.mul_mod_mul_left, Nat.mul_left_comm]
  have scaled : _ % 2 ^ 64 = _ % 2 ^ 64 := doubled.mul_left capacity.value.toNat
  rw [tickets, tickets] at scaled
  show _ % _ = _ % _
  omega

end Laps

/-! ### Passes without end -/

section Passes

variable {capacity : Capacity} {side : Side} {ticket : Nat}

theorem toNat_getSlot_ofNat (capacity : Capacity) (ticket : Nat) :
    (getSlot capacity (UInt64.ofNat ticket)).toNat = ticket % capacity.value.toNat := by
  rw [toNat_getSlot, UInt64.toNat_ofNat', Nat.mod_mod_of_dvd _ capacity.dvd]

theorem injective_pass (capacity : Capacity) : Injective (pass capacity) := by
  intro side ticket side' ticket' same
  have place := congrArg (·.place.toNat) same
  have turn := congrArg (·.turn) same
  simp only [pass, toNat_getSlot_ofNat] at place turn
  have sides : side = side' := by
    cases side <;> cases side' <;> simp only [Side.parity] at turn <;> first | rfl | omega
  subst sides
  refine ⟨rfl, ?_⟩
  have laps : ticket / capacity.value.toNat = ticket' / capacity.value.toNat := by omega
  rw [← Nat.div_add_mod ticket capacity.value.toNat, laps, place, Nat.div_add_mod]

/-- The turn at which the holder of a ticket may go on. -/
def awaited (capacity : Capacity) : Side → UInt64 → UInt64
  | .head => freeTurn capacity
  | .tail => fullTurn capacity

theorem turnAt_pass (capacity : Capacity) (side : Side) (ticket : Nat) :
    turnAt capacity (pass capacity side ticket).turn =
      awaited capacity side (UInt64.ofNat ticket) := by
  cases side with
  | head => exact (freeTurn_ofNat ticket).symm
  | tail => exact (fullTurn_ofNat ticket).symm

/-- A ticket that was drawn long before another one of the same slot. -/
theorem pass_sub (side : Side) (laps : Nat) (less : capacity.value.toNat * laps ≤ ticket) :
    (pass capacity side (ticket - capacity.value.toNat * laps)).place =
        (pass capacity side ticket).place ∧
      (pass capacity side (ticket - capacity.value.toNat * laps)).turn + 2 * laps =
        (pass capacity side ticket).turn := by
  have split : ticket = ticket - capacity.value.toNat * laps + capacity.value.toNat * laps := by
    omega
  constructor
  · rw [← UInt64.toNat_inj]
    show (getSlot capacity (UInt64.ofNat _)).toNat = (getSlot capacity (UInt64.ofNat _)).toNat
    rw [toNat_getSlot_ofNat, toNat_getSlot_ofNat]
    conv_rhs => rw [split, Nat.add_mul_mod_self_left]
  · show 2 * (_ / _) + side.parity + 2 * laps = 2 * (_ / _) + side.parity
    conv_rhs => rw [split, Nat.add_mul_div_left _ _ capacity.pos]
    omega

variable {Thread : Type} {ledger : Ledger Side UInt64 Thread}

/-- If the turn of a slot looks like that of a ticket, it is: had it stopped at the turn of an
earlier ticket, somebody would still hold that one, and be too far behind. -/
theorem turn_le_of_turnAt (orderly : Orderly (ledger.board (pass capacity)))
    (close : ledger.Close (2 ^ 63)) (drawn : ticket ≤ ledger.drawn side)
    (same : turnAt capacity (pass capacity side ticket).turn =
      turnAt capacity (ledger.turn (pass capacity side ticket).place)) :
    (pass capacity side ticket).turn ≤ ledger.turn (pass capacity side ticket).place := by
  by_contra late
  obtain ⟨parity, apart⟩ := turnAt_congr same
  have lap : (pass capacity side ticket).turn / 2 = ticket / capacity.value.toNat := by
    show (2 * _ + side.parity) / 2 = _
    cases side <;> simp only [Side.parity] <;> omega
  obtain ⟨laps, onward⟩ : ∃ laps, (pass capacity side ticket).turn / 2 =
      ledger.turn (pass capacity side ticket).place / 2 + laps :=
    ⟨_, (Nat.add_sub_of_le (by omega)).symm⟩
  have some : 0 < capacity.value.toNat * laps := Nat.mul_pos capacity.pos (by omega)
  have far : 2 ^ 63 ≤ capacity.value.toNat * laps := by
    have apart' : _ % 2 ^ 63 = _ % 2 ^ 63 := apart
    rw [onward, Nat.mul_add] at apart'
    omega
  have less : capacity.value.toNat * laps ≤ ticket := by
    refine Nat.le_trans (Nat.mul_le_mul_left _ ?_) (Nat.mul_div_le ticket capacity.value.toNat)
    omega
  obtain ⟨place, turn⟩ := pass_sub side laps less
  have passed := passed_of_far orderly close (injective_pass capacity) (by decide)
    (by omega : ticket - capacity.value.toNat * laps + 2 ^ 63 ≤ ticket) drawn
  rw [place] at passed
  omega

end Passes

/-! ### Machine tickets -/

section Machine

variable (capacity : Capacity)

theorem getSlot_lt (t : UInt64) : getSlot capacity t < capacity.value := by
  rw [UInt64.lt_iff_toNat_lt, toNat_getSlot]
  exact Nat.mod_lt _ capacity.pos

theorem ofNat_add_capacity (t : UInt64) :
    UInt64.ofNat (t.toNat + capacity.value.toNat) = t + capacity.value := by
  rw [UInt64.ofNat_add, UInt64.ofNat_toNat, UInt64.ofNat_toNat]

theorem getSlot_add_capacity (t : UInt64) :
    getSlot capacity (t + capacity.value) = getSlot capacity t := by
  rw [← ofNat_add_capacity, ← UInt64.toNat_inj, toNat_getSlot_ofNat, toNat_getSlot,
    Nat.add_mod_right]

theorem releasedTurn_eq_freeTurn (t : UInt64) :
    releasedTurn capacity t = freeTurn capacity (t + capacity.value) := by
  have released : releasedTurn capacity (UInt64.ofNat t.toNat) = _ := releasedTurn_ofNat t.toNat
  rw [UInt64.ofNat_toNat] at released
  rw [released, ← ofNat_add_capacity, freeTurn_ofNat, Nat.add_div_right _ capacity.pos]
  rfl

theorem freeTurn_eq_turnAt (t : UInt64) :
    freeTurn capacity t = turnAt capacity (2 * (t.toNat / capacity.value.toNat)) := by
  rw [← freeTurn_ofNat, UInt64.ofNat_toNat]

theorem fullTurn_eq_turnAt (t : UInt64) :
    fullTurn capacity t = turnAt capacity (2 * (t.toNat / capacity.value.toNat) + 1) := by
  rw [← fullTurn_ofNat, UInt64.ofNat_toNat]

theorem freeTurn_ne_fullTurn (t u : UInt64) : freeTurn capacity t ≠ fullTurn capacity u := by
  intro same
  rw [freeTurn_eq_turnAt, fullTurn_eq_turnAt] at same
  have parity := (turnAt_congr same).1
  omega

/-- The distance of two tickets of a slot that wait for the same turn. -/
theorem toNat_sub_of_turnAt {t u : UInt64} {parity : Nat}
    (slot : getSlot capacity t = getSlot capacity u) (small : parity < 2)
    (same : turnAt capacity (2 * (t.toNat / capacity.value.toNat) + parity) =
      turnAt capacity (2 * (u.toNat / capacity.value.toNat) + parity)) :
    t = u ∨ (t - u).toNat = 2 ^ 63 ∧ (u - t).toNat = 2 ^ 63 := by
  obtain ⟨_, apart⟩ := turnAt_congr same
  have half (n : Nat) : (2 * n + parity) / 2 = n := by omega
  have slots := congrArg UInt64.toNat slot
  have less := t.toNat_lt
  have less' := u.toNat_lt
  have split := Nat.div_add_mod t.toNat capacity.value.toNat
  have split' := Nat.div_add_mod u.toNat capacity.value.toNat
  have apart' : _ % 2 ^ 63 = _ % 2 ^ 63 := apart
  rw [half, half] at apart'
  rw [toNat_getSlot, toNat_getSlot] at slots
  rw [← UInt64.toNat_inj, UInt64.toNat_sub, UInt64.toNat_sub]
  omega

/-- Tickets of a slot less than `2 ^ 63` apart wait for four different turns. -/
theorem nodup_turns {t u : UInt64} (different : t ≠ u)
    (slot : getSlot capacity t = getSlot capacity u)
    (near : (t - u).toNat < 2 ^ 63 ∨ (u - t).toNat < 2 ^ 63) :
    [freeTurn capacity t, fullTurn capacity t, freeTurn capacity u, fullTurn capacity u].Nodup := by
  have apart (parity : Nat) (small : parity < 2) :
      turnAt capacity (2 * (t.toNat / capacity.value.toNat) + parity) ≠
        turnAt capacity (2 * (u.toNat / capacity.value.toNat) + parity) := by
    intro same
    rcases toNat_sub_of_turnAt capacity slot small same with equal | ⟨before, after⟩
    · exact different equal
    · omega
  have free : freeTurn capacity t ≠ freeTurn capacity u := by
    rw [freeTurn_eq_turnAt, freeTurn_eq_turnAt]
    exact apart 0 (by decide)
  have full : fullTurn capacity t ≠ fullTurn capacity u := by
    rw [fullTurn_eq_turnAt, fullTurn_eq_turnAt]
    exact apart 1 (by decide)
  have parity := freeTurn_ne_fullTurn capacity
  simp only [List.nodup_cons, List.mem_cons, List.not_mem_nil, or_false, not_or, List.nodup_nil,
    and_true, not_false_eq_true]
  exact ⟨⟨parity t t, free, parity t u⟩, ⟨(parity u t).symm, full⟩, parity u u⟩

end Machine

end MPMCQueue

end Sheep
