/-
This file proves that no call of the queue starves. In a behaviour in which every
thread that can go on does so, a push that waits returns when the tail comes close
enough to its last ticket, and a pop that waits returns when the head comes past
its ticket: nothing else holds them up, whatever other threads do.

A ticket waits for the tickets of its slot that come before it, and for those its
thread has to use first. If the other side claims the tickets that one of them
needs, it claims those of all the others as well.
-/

import Sheep.QueueProgress
import Sheep.TurnstileCourse

namespace Sheep

open Turnstile Transitions

namespace MPMCQueue

variable {Thread Element : Type} [DecidableEq Thread] {capacity : Capacity}
  {moved : Element → Element} {bytes : UInt64 → Element}

/-! ### Moments of the queue -/

section Moments

variable (run : Behaviour (system capacity moved) (start bytes : State Thread Element))

/-- What goes on at a moment. -/
theorem moment_cases (moment : Nat) :
    run.state (moment + 1) = run.state moment ∨
    (∃ thread, ∃ op : Op Element, (run.state moment).pc thread = .idle ∧
      run.state (moment + 1) = (run.state moment).setPc thread (op.entry moved)) ∨
    ∃ thread, run.action moment = some (.step thread) ∧
      advance capacity (run.state moment) thread ((run.state moment).pc thread) =
        some (run.state (moment + 1), run.events moment) := by
  cases taken : run.action moment with
  | none => exact Or.inl (run.still taken).1
  | some action =>
    have step := run.step taken
    cases action with
    | step thread => exact Or.inr (Or.inr ⟨thread, rfl, step⟩)
    | call thread op =>
      rw [system] at step
      split at step
      · rename_i idle
        exact Or.inr (Or.inl ⟨thread, op, idle, (Prod.mk.inj (Option.some.inj step)).1.symm⟩)
      · cases step

/-- A thread inside an operation stays where it is until its next step. -/
theorem pc_still {moment : Nat} {thread : Thread}
    (inside : (run.state moment).pc thread ≠ .idle)
    (waits : run.action moment ≠ some (.step thread)) :
    (run.state (moment + 1)).pc thread = (run.state moment).pc thread := by
  rcases moment_cases run moment with same | ⟨caller, op, idle, called⟩ | ⟨other, taken, step⟩
  · rw [same]
  · have different : thread ≠ caller := by
      rintro rfl
      exact inside idle
    rw [called, State.setPc_pc_other _ _ _ different]
  · refine pc_advance_other step ?_
    rintro rfl
    exact waits taken

/-- A thread inside an operation has a step. -/
theorem isSome_step {s : State Thread Element} {thread : Thread} (inside : s.pc thread ≠ .idle) :
    (system capacity moved s (.step thread)).isSome := by
  obtain ⟨side, works⟩ : ∃ side, (s.pc thread).side = some side := by
    cases pc : s.pc thread with
    | idle => exact absurd pc inside
    | _ => exact ⟨_, rfl⟩
  obtain ⟨next, events, step⟩ : ∃ next events, advance capacity s thread (s.pc thread) =
      some (next, events) := advance_of_side works
  rw [system, step]
  rfl

variable (few : ∀ moment, FewTickets (run.trace moment))
include few

theorem sound_at (moment : Nat) :
    Sound capacity (run.state moment) (run.trace moment) :=
  sound_of_reaches (run.reaches moment) (few moment)

theorem count_at (moment : Nat) (side : Side) : (run.state moment).count side < 2 ^ 63 :=
  (sound_at run few moment).count_lt (few moment) side

theorem count_mono {moment later : Nat} (le : moment ≤ later) (side : Side) :
    (run.state moment).count side ≤ (run.state later).count side := by
  induction le with
  | refl => exact le_refl _
  | @step later _ inductionHypothesis =>
    show (run.state moment).count side ≤ (run.state (later + 1)).count side
    refine inductionHypothesis.trans ?_
    have now := congrArg List.length ((sound_at run few later).claimed side)
    have next := congrArg List.length ((sound_at run few (later + 1)).claimed side)
    rw [Behaviour.trace, claims_append, List.length_append, List.length_range] at next
    rw [List.length_range] at now
    omega

theorem turn_le (moment : Nat) (index : UInt64) :
    ((run.state moment).slots index).turn.toNat ≤
      ((run.state (moment + 1)).slots index).turn.toNat := by
  rcases moment_cases run moment with same | ⟨caller, op, _, called⟩ | ⟨thread, _, step⟩
  · rw [same]
  · rw [called, State.setPc_slots]
  · have sound := sound_at run few moment
    have fewLater := few (moment + 1)
    rw [Behaviour.trace] at fewLater
    obtain ⟨middle, first, second⟩ := moves_advance sound.orderly (sound.looked thread) step
      (sound.small fewLater)
    exact (turn_mono sound.orderly first index).trans
      (turn_mono (orderly_move sound.orderly first) second index)

/-- The boards of a run of the queue. -/
theorem course_of_run : Course fun moment => (run.state moment).board capacity where
  orderly moment := (sound_at run few moment).orderly
  turns moment index := turn_le run few moment index
  issues moment given issued := by
    obtain ⟨side, ticket, less, same⟩ := issued
    exact ⟨side, ticket, lt_of_lt_of_le less (count_mono run few (Nat.le_succ moment) side), same⟩

end Moments

/-! ### The tickets that are due -/

variable (capacity) in
/-- The rank of a ticket, read off its pass. -/
def passRank (given : Pass UInt64) : Nat :=
  2 * (capacity.value.toNat * (given.turn / 2) + given.place.toNat) + given.turn % 2

theorem passRank_pass {side : Side} {ticket : Nat} (small : ticket < 2 ^ 64) :
    passRank capacity (pass capacity side ticket) = rank side ticket := by
  have half : (2 * (ticket / capacity.value.toNat) + side.parity) / 2 =
      ticket / capacity.value.toNat := by
    cases side <;> rw [Side.parity] <;> omega
  have parity : (2 * (ticket / capacity.value.toNat) + side.parity) % 2 = side.parity := by
    cases side <;> rw [Side.parity] <;> omega
  rw [passRank, pass, rank]
  dsimp only
  rw [half, parity, toNat_getSlot, UInt64.toNat_ofNat_of_lt' small, Nat.div_add_mod]

/-- At a moment the ticket has been claimed, and so has the one of the other side that it needs. -/
def Met (capacity : Capacity) (s : State Thread Element) : Side → Nat → Prop
  | .head, ticket => ticket < s.head.toNat ∧ ticket < s.tail.toNat + capacity.value.toNat
  | .tail, ticket => ticket < s.tail.toNat ∧ ticket < s.head.toNat

omit [DecidableEq Thread] in
theorem Met.lt_count {s : State Thread Element} {side : Side} {ticket : Nat}
    (met : Met capacity s side ticket) : ticket < s.count side := by
  cases side <;> exact met.1

omit [DecidableEq Thread] in
theorem Met.small {s : State Thread Element} {side : Side} {ticket : Nat}
    (met : Met capacity s side ticket) : ticket < 2 ^ 64 :=
  lt_trans met.lt_count (s.count_lt_size side)

omit [DecidableEq Thread] in
theorem Met.before {s : State Thread Element} {side : Side} {ticket earlier : Nat}
    (met : Met capacity s side ticket) (less : earlier < ticket) :
    Met capacity s side earlier := by
  cases side <;> exact ⟨lt_trans less met.1, lt_trans less met.2⟩

omit [DecidableEq Thread] in
/-- If a ticket is met, so are all those that use its slot before it. -/
theorem Met.earlier {s : State Thread Element} {side side' : Side} {ticket ticket' : Nat}
    (met : Met capacity s side ticket) (sooner : rank side' ticket' < rank side ticket)
    (place : ticket' % capacity.value.toNat = ticket % capacity.value.toNat)
    (turn : 2 * (ticket' / capacity.value.toNat) + side'.parity <
      2 * (ticket / capacity.value.toNat) + side.parity) :
    Met capacity s side' ticket' := by
  rw [rank, rank] at sooner
  cases side with
  | head =>
    obtain ⟨claimed, needed⟩ := met
    cases side' with
    | head => exact ⟨by omega, by omega⟩
    | tail =>
      -- a whole lap lies between them
      have laps : ticket' / capacity.value.toNat + 1 ≤ ticket / capacity.value.toNat := by
        simp only [Side.parity] at turn
        omega
      have scaled := Nat.mul_le_mul_left capacity.value.toNat laps
      have whole := Nat.div_add_mod ticket capacity.value.toNat
      have whole' := Nat.div_add_mod ticket' capacity.value.toNat
      rw [Nat.mul_succ] at scaled
      exact ⟨by omega, by omega⟩
  | tail =>
    obtain ⟨claimed, needed⟩ := met
    cases side' with
    | head =>
      simp only [Side.parity] at sooner
      exact ⟨by omega, by omega⟩
    | tail => exact ⟨by omega, by omega⟩

section Dues

variable (run : Behaviour (system capacity moved) (start bytes : State Thread Element))

/-- The passes of tickets that are met. -/
def IsDue (given : Pass UInt64) : Prop :=
  ∃ side ticket moment, Met capacity (run.state moment) side ticket ∧
    given = pass capacity side ticket

/-- What they wait for is due as well. -/
theorem due_of_run :
    Due (fun moment => (run.state moment).board capacity) (passRank capacity) (IsDue run) where
  issued := by
    rintro given ⟨side, ticket, moment, met, same⟩
    exact ⟨moment, side, ticket, met.lt_count, same⟩
  turn := by
    rintro given turn ⟨side, ticket, moment, met, rfl⟩ earlier
    obtain ⟨side', ticket', same, sooner⟩ := exists_earlier_pass capacity met.small earlier
    have small' : ticket' < 2 ^ 64 := by
      have small := met.small
      rw [rank, rank] at sooner
      cases side <;> cases side' <;> simp only [Side.parity] at sooner <;> omega
    have place := congrArg (·.place.toNat) same
    have turns := congrArg (·.turn) same
    simp only [pass, toNat_getSlot, UInt64.toNat_ofNat_of_lt' met.small,
      UInt64.toNat_ofNat_of_lt' small'] at place turns
    rw [← same, passRank_pass small', passRank_pass met.small]
    exact ⟨⟨side', ticket', moment, met.earlier sooner place (turns ▸ earlier), rfl⟩, sooner⟩
  held := by
    rintro now thread given other ⟨side, ticket, moment, met, rfl⟩ ⟨side₁, ticket₁, holds, same⟩
      ⟨side₂, ticket₂, holds', rfl⟩ sooner
    obtain ⟨rfl, rfl⟩ := pass_injective met.small holds.1 same
    rw [passRank_pass holds'.1, passRank_pass holds.1, rank, rank] at sooner
    obtain ⟨_, first, count, held, _⟩ := holds
    obtain ⟨_, first', count', held', _⟩ := id holds'
    rw [held] at held'
    cases held'
    exact ⟨side, ticket₂, moment, met.before (by omega), rfl⟩
  unique := by
    rintro given other ⟨side, ticket, moment, met, rfl⟩ ⟨side', ticket', moment', met', rfl⟩ same
    rw [passRank_pass met.small, passRank_pass met'.small, rank, rank] at same
    cases side <;> cases side' <;> simp only [Side.parity] at same
    · rw [show ticket = ticket' by omega]
    · omega
    · omega
    · rw [show ticket = ticket' by omega]

end Dues

/-! ### The use of a pass -/

/-- How many steps a thread has left with the ticket it is at. -/
def Pc.toPass : Pc Element → Nat
  | .awaitFree _ _ _ => 3
  | .construct _ _ _ => 2
  | .publish _ _ => 1
  | .awaitFull _ _ => 4
  | .read _ _ _ => 3
  | .destroy _ _ => 2
  | .release _ _ => 1
  | _ => 0

/-- A thread is at a ticket whose turn has come. -/
structure AtTurn (capacity : Capacity) (s : State Thread Element) (thread : Thread) (side : Side)
    (ticket : Nat) : Prop where
  held : ∃ count, (s.pc thread).held = some (side, ticket, count + 1)
  good : (s.slots (pass capacity side ticket).place).turn.toNat = (pass capacity side ticket).turn

omit [DecidableEq Thread] in
theorem AtTurn.inside {s : State Thread Element} {thread : Thread} {side : Side} {ticket : Nat}
    (atTurn : AtTurn capacity s thread side ticket) : s.pc thread ≠ .idle := by
  intro idle
  obtain ⟨count, held⟩ := atTurn.held
  rw [idle] at held
  cases held

omit [DecidableEq Thread] in
/-- The first pass of a thread, when it is good, is the one it is at. -/
theorem atTurn_of_usable {board : Nat → Board UInt64 Thread} {s : State Thread Element}
    {moment : Nat} {thread : Thread} {given : Pass UInt64} (same : board moment = s.board capacity)
    (usable : Usable board (passRank capacity) thread given moment) :
    ∃ side ticket, ticket < 2 ^ 64 ∧ given = pass capacity side ticket ∧
      AtTurn capacity s thread side ticket := by
  obtain ⟨holds, good, first⟩ := usable
  rw [same] at holds good first
  obtain ⟨side, ticket, holds, rfl⟩ := holds
  obtain ⟨small, low, count, held, notBefore, before⟩ := holds
  have lowSmall : low < 2 ^ 64 := lt_of_le_of_lt notBefore small
  have least := first _ ⟨side, low, ⟨lowSmall, low, count, held, le_refl _, by omega⟩, rfl⟩
  rw [passRank_pass small, passRank_pass lowSmall, rank, rank] at least
  have isLow : low = ticket := by omega
  subst isLow
  refine ⟨side, low, small, rfl, ⟨count - 1, ?_⟩, good⟩
  rw [held, Nat.sub_add_cancel (by omega)]

/-- A step of a thread that is at its turn: it goes on, or the ticket has been used. -/
theorem atTurn_advance {s next : State Thread Element} {thread : Thread}
    {events : List (Event Thread Element)} {side : Side} {ticket : Nat}
    (atTurn : AtTurn capacity s thread side ticket) (few : s.count side < 2 ^ 63)
    (claimed : ticket < s.count side)
    (step : advance capacity s thread (s.pc thread) = some (next, events)) :
    (pass capacity side ticket).turn <
        (next.slots (pass capacity side ticket).place).turn.toNat ∨
      AtTurn capacity next thread side ticket ∧
        (next.pc thread).toPass < (s.pc thread).toPass := by
  obtain ⟨⟨count, held⟩, good⟩ := atTurn
  -- the slot keeps its turn, and the thread goes on with its ticket
  have onward {state : State Thread Element} {pc : Pc Element}
      (turns : (state.slots (pass capacity side ticket).place).turn =
        (s.slots (pass capacity side ticket).place).turn)
      (still : pc.held = (s.pc thread).held) (less : pc.toPass < (s.pc thread).toPass) :
      AtTurn capacity (state.setPc thread pc) thread side ticket ∧
        ((state.setPc thread pc).pc thread).toPass < (s.pc thread).toPass := by
    rw [State.setPc_pc_self]
    refine ⟨⟨⟨count, ?_⟩, ?_⟩, less⟩
    · rw [State.setPc_pc_self, still, held]
    · rw [State.setPc_slots, turns, good]
  cases advances_of_advance step with
  | enterFree pc matched | enterFull pc matched =>
    refine Or.inr (onward rfl (by rw [pc]; rfl) ?_)
    rw [pc]
    exact Nat.lt_succ_self _
  | spinFree pc mismatch =>
    rw [pc] at held
    cases held
    refine absurd (UInt64.toNat_inj.mp ?_) mismatch
    rw [pass_toNat] at good
    rw [good, toNat_freeTurn capacity (by omega), turn_pass_head]
  | spinFull pc mismatch =>
    rw [pc] at held
    cases held
    refine absurd (UInt64.toNat_inj.mp ?_) mismatch
    rw [pass_toNat] at good
    rw [good, toNat_fullTurn capacity (by omega), turn_pass_tail]
  | construct pc | read pc | destroy pc =>
    rw [pc] at held
    cases held
    refine Or.inr (onward ?_ (by rw [pc]; rfl) ?_)
    · rw [pass_toNat, State.setSlot_slots_self]
      rfl
    · rw [pc]
      exact Nat.lt_succ_self _
  | publish pc =>
    rw [pc] at held
    cases held
    refine Or.inl ?_
    rw [pass_toNat, State.setPc_slots, State.setSlot_slots_self, turn_pass_head]
    show _ < (fullTurn capacity _).toNat
    rw [toNat_fullTurn capacity (by omega)]
    exact Nat.lt_succ_self _
  | release pc =>
    rw [pc] at held
    cases held
    refine Or.inl ?_
    rw [pass_toNat, State.setPc_slots, State.setSlot_slots_self, turn_pass_tail]
    show _ < (releasedTurn capacity _).toNat
    rw [toNat_releasedTurn capacity (by omega)]
    exact Nat.lt_succ_self _
  | fetchHead pc | loadHead pc | matchFree pc | missFree pc | winHead pc | loseHead pc
  | giveUpHead pc | retryHead pc | fetchTail pc | loadTail pc | matchFull pc | missFull pc
  | winTail pc | loseTail pc | giveUpTail pc | retryTail pc =>
    rw [pc] at held
    cases held

section Fair

variable (run : Behaviour (system capacity moved) (start bytes : State Thread Element))
  (few : ∀ moment, FewTickets (run.trace moment))

section Turns

include few

/-- Until it moves, a thread that is at its turn stays there. -/
theorem atTurn_still {moment : Nat} {thread : Thread} {side : Side} {ticket : Nat}
    (small : ticket < 2 ^ 64) (atTurn : AtTurn capacity (run.state moment) thread side ticket)
    (waits : run.action moment ≠ some (.step thread)) :
    AtTurn capacity (run.state (moment + 1)) thread side ticket := by
  have same := pc_still run atTurn.inside waits
  obtain ⟨count, held⟩ := atTurn.held
  rw [← same] at held
  refine ⟨⟨count, held⟩, le_antisymm ?_ ?_⟩
  · exact (sound_at run few (moment + 1)).orderly.held_ahead thread _
      ⟨side, ticket, Holds.of_held held small, rfl⟩
  · rw [← atTurn.good]
    exact turn_le run few moment _

omit few in
theorem advance_of_step {moment : Nat} {thread : Thread}
    (taken : run.action moment = some (.step thread)) :
    advance capacity (run.state moment) thread ((run.state moment).pc thread) =
      some (run.state (moment + 1), run.events moment) :=
  run.step taken

variable (fair : ∀ thread, run.WeaklyFair (.step thread))
include fair

/-- A thread that is at its turn uses its ticket. -/
theorem leadsTo_of_atTurn {thread : Thread} {side : Side} {ticket : Nat}
    (small : ticket < 2 ^ 64) :
    LeadsTo (fun moment => AtTurn capacity (run.state moment) thread side ticket)
      (Passed (fun moment => (run.state moment).board capacity) (pass capacity side ticket)) := by
  refine leadsTo_of_measure (fun moment => ((run.state moment).pc thread).toPass) ?_
  intro moment atTurn
  have goes : LeadsTo
      (fun later => AtTurn capacity (run.state later) thread side ticket ∧
        ((run.state later).pc thread).toPass = ((run.state moment).pc thread).toPass)
      (fun later =>
        Passed (fun moment => (run.state moment).board capacity) (pass capacity side ticket) later ∨
        AtTurn capacity (run.state later) thread side ticket ∧
          ((run.state later).pc thread).toPass < ((run.state moment).pc thread).toPass) := by
    refine run.leadsTo_of_fair (fair thread) ?_ ?_ ?_
    · exact fun later here => isSome_step here.1.inside
    · rintro later ⟨here, same⟩ waits
      refine Or.inl ⟨atTurn_still run few small here waits, ?_⟩
      rw [pc_still run here.inside waits, same]
    · rintro later ⟨here, same⟩ taken
      obtain ⟨count, held⟩ := here.held
      have claimed := lt_count_of_holds (sound_at run few later).orderly (Holds.of_held held small)
      refine (atTurn_advance here (count_at run few later side) claimed
        (advance_of_step run taken)).imp_right fun ⟨again, less⟩ => ⟨again, ?_⟩
      rw [← same]
      exact less
  exact goes moment ⟨atTurn, rfl⟩

/-- Every ticket that is met has its turn. -/
theorem exists_passed_of_met {moment : Nat} {side : Side} {ticket : Nat}
    (met : Met capacity (run.state moment) side ticket) :
    ∃ later, Passed (fun moment => (run.state moment).board capacity) (pass capacity side ticket)
      later := by
  refine exists_passed (course_of_run run few) (due_of_run run) ?_ ⟨side, ticket, moment, met, rfl⟩
  intro thread given now usable
  obtain ⟨side', ticket', small, rfl, atTurn⟩ := atTurn_of_usable rfl usable
  exact leadsTo_of_atTurn run few fair small now atTurn

end Turns

/-! ### Calls return -/

/-- The last ticket of a call that returns when it has used it, and what it returns. -/
def Pc.last : Pc Element → Option (Side × Nat × Returned)
  | .awaitFree ticket _ rest => some (.head, ticket.toNat + rest.length, .unit)
  | .construct ticket _ (.bulk rest) => some (.head, ticket.toNat + rest.length, .unit)
  | .publish ticket (.bulk rest) => some (.head, ticket.toNat + rest.length, .unit)
  | .awaitFull ticket _ => some (.tail, ticket.toNat, .unit)
  | .read ticket _ (.done value) => some (.tail, ticket.toNat, value)
  | .destroy ticket (.done value) => some (.tail, ticket.toNat, value)
  | .release ticket (.done value) => some (.tail, ticket.toNat, value)
  | _ => none

theorem last_publish (ticket : UInt64) (write : Element → Element) (after : AfterPush Element) :
    (Pc.publish ticket after).last = (Pc.construct ticket write after).last := by
  cases after <;> rfl

theorem last_destroy (ticket : UInt64) (change : Element → Element) (after : AfterPop Element) :
    (Pc.destroy ticket after).last = (Pc.read ticket change after).last := by
  cases after <;> rfl

theorem last_release (ticket : UInt64) (after : AfterPop Element) :
    (Pc.release ticket after).last = (Pc.destroy ticket after).last := by
  cases after <;> rfl

omit [DecidableEq Thread] in
theorem holds_of_last {pc : Pc Element} {side : Side} {ticket : Nat} {value : Returned}
    (last : pc.last = some (side, ticket, value)) (small : ticket < 2 ^ 64) :
    pc.Holds side ticket := by
  cases pc with
  | awaitFree i write rest =>
    cases last
    exact ⟨small, _, _, rfl, by omega, by omega⟩
  | construct i write after | publish i after =>
    cases after <;> cases last
    exact ⟨small, _, _, rfl, by omega, by rw [AfterPush.left]; omega⟩
  | awaitFull i change =>
    cases last
    exact ⟨small, _, _, rfl, by omega, by omega⟩
  | read i change after | destroy i after | release i after =>
    cases after <;> cases last
    exact ⟨small, _, _, rfl, by omega, by omega⟩
  | _ => cases last

/-- Until it returns, a call keeps its last ticket. -/
theorem last_advance {s next : State Thread Element} {thread : Thread}
    {events : List (Event Thread Element)} {side : Side} {ticket : Nat} {value : Returned}
    (last : (s.pc thread).last = some (side, ticket, value)) (small : ticket < 2 ^ 63)
    (step : advance capacity s thread (s.pc thread) = some (next, events)) :
    (next.pc thread).last = some (side, ticket, value) ∨ .returned thread value ∈ events := by
  cases advances_of_advance step with
  | spinFree | spinFull => exact Or.inl last
  | enterFree pc | enterFull pc =>
    rw [pc] at last
    rw [State.setPc_pc_self]
    exact Or.inl last
  | construct pc =>
    rw [pc] at last
    rw [State.setPc_pc_self]
    exact Or.inl ((last_publish _ _ _).trans last)
  | read pc =>
    rw [pc] at last
    rw [State.setPc_pc_self]
    exact Or.inl ((last_destroy _ _ _).trans last)
  | destroy pc =>
    rw [pc] at last
    rw [State.setPc_pc_self]
    exact Or.inl ((last_release _ _).trans last)
  | @publish i after pc =>
    rw [pc] at last
    cases after with
    | returnTrue => cases last
    | bulk rest =>
      cases rest with
      | nil =>
        cases last
        exact Or.inr List.mem_cons_self
      | cons write rest =>
        cases last
        rw [List.length_cons] at small
        refine Or.inl ?_
        rw [State.setPc_pc_self]
        show some (Side.head, (i + 1).toNat + rest.length, Returned.unit) = _
        rw [toNat_add_one (by omega), List.length_cons, Nat.add_assoc, Nat.add_comm 1]
  | @release i after pc =>
    rw [pc] at last
    cases after with
    | drain change count => cases last
    | done value' =>
      cases last
      exact Or.inr List.mem_cons_self
  | fetchHead pc | loadHead pc | matchFree pc | missFree pc | winHead pc | loseHead pc
  | giveUpHead pc | retryHead pc | fetchTail pc | loadTail pc | matchFull pc | missFull pc
  | winTail pc | loseTail pc | giveUpTail pc | retryTail pc =>
    rw [pc] at last
    cases last

section Returns

variable (fair : ∀ thread, run.WeaklyFair (.step thread))
include fair

/-- A call in progress takes its next step, where it stands. -/
theorem exists_step {moment : Nat} {thread : Thread}
    (inside : (run.state moment).pc thread ≠ .idle) :
    ∃ later ≥ moment, (run.state later).pc thread = (run.state moment).pc thread ∧
      run.action later = some (.step thread) := by
  by_contra never
  have stays (later : Nat) (le : moment ≤ later) :
      (run.state later).pc thread = (run.state moment).pc thread := by
    induction le with
    | refl => rfl
    | @step later le inductionHypothesis =>
      refine (pc_still run ?_ fun taken =>
        never ⟨later, le, inductionHypothesis, taken⟩).trans inductionHypothesis
      rw [inductionHypothesis]
      exact inside
  obtain ⟨later, le, taken⟩ := fair thread moment fun later le => by
    rw [← stays later le] at inside
    exact isSome_step inside
  exact never ⟨later, le, stays later le, taken⟩

include few

/-- A call whose last ticket is met returns. -/
theorem returns_of_last {moment later : Nat} {thread : Thread} {side : Side} {ticket : Nat}
    {value : Returned} (last : ((run.state moment).pc thread).last = some (side, ticket, value))
    (met : Met capacity (run.state later) side ticket) :
    ∃ final ≥ moment, .returned thread value ∈ run.events final := by
  have small : ticket < 2 ^ 63 := lt_trans met.lt_count (count_at run few later side)
  by_contra never
  have keeps (now : Nat) (le : moment ≤ now) :
      ((run.state now).pc thread).last = some (side, ticket, value) := by
    induction le with
    | refl => exact last
    | @step now le inductionHypothesis =>
      by_cases taken : run.action now = some (.step thread)
      · exact (last_advance inductionHypothesis small (advance_of_step run taken)).resolve_right
          fun returned => never ⟨now, le, returned⟩
      · have inside : (run.state now).pc thread ≠ .idle := by
          intro idle
          rw [idle] at inductionHypothesis
          cases inductionHypothesis
        show ((run.state (now + 1)).pc thread).last = _
        rw [pc_still run inside taken]
        exact inductionHypothesis
  obtain ⟨passed, done⟩ := exists_passed_of_met run few fair met
  have course := course_of_run run few
  have late := (course.passed (pass capacity side ticket)).of_le done (le_max_left passed moment)
  have holds := holds_of_last (keeps _ (le_max_right passed moment)) met.small
  exact absurd ((course.orderly _).held_ahead thread _ ⟨side, ticket, holds, rfl⟩)
    (Nat.not_le_of_lt late)

/-- A push that has claimed its tickets returns when the tail has come close enough to the last. -/
theorem push_returns {claim later : Nat} {thread : Thread} {writes : List (Element → Element)}
    (pc : (run.state claim).pc thread = .fetchHead writes)
    (taken : run.action claim = some (.step thread))
    (close : (run.state claim).head.toNat + writes.length ≤
      (run.state later).tail.toNat + capacity.value.toNat) :
    ∃ last ≥ claim, .returned thread .unit ∈ run.events last := by
  have step := advance_of_step run taken
  have fewLater := few (claim + 1)
  rw [Behaviour.trace] at fewLater
  have counted := counted_advance step ((sound_at run few claim).small fewLater) .head
  rw [pc, advance] at step
  obtain ⟨after, told⟩ := Prod.mk.inj (Option.some.inj step)
  cases writes with
  | nil =>
    refine ⟨claim, le_refl _, ?_⟩
    rw [← told]
    exact List.mem_cons_of_mem _ List.mem_cons_self
  | cons write rest =>
    have last : ((run.state (claim + 1)).pc thread).last =
        some (.head, (run.state claim).head.toNat + rest.length, .unit) := by
      rw [← after, State.setPc_pc_self]
      rfl
    have claimed : (run.state claim).head.toNat + rest.length <
        (run.state (claim + 1)).head.toNat := by
      have more := counted.1
      rw [← told, claims_cons, claims_pushNext, List.append_nil, Event.claimed, if_pos rfl,
        List.length_range', List.length_cons] at more
      have less : (run.state claim).count .head + rest.length <
          (run.state (claim + 1)).count .head := by
        omega
      exact less
    have met : Met capacity (run.state (max (claim + 1) later)) .head
        ((run.state claim).head.toNat + rest.length) := by
      have heads : (run.state (claim + 1)).head.toNat ≤
          (run.state (max (claim + 1) later)).head.toNat :=
        count_mono run few (le_max_left (claim + 1) later) .head
      have tails : (run.state later).tail.toNat ≤
          (run.state (max (claim + 1) later)).tail.toNat :=
        count_mono run few (le_max_right (claim + 1) later) .tail
      rw [List.length_cons] at close
      exact ⟨by omega, by omega⟩
    obtain ⟨final, le, returned⟩ := returns_of_last run few fair last met
    exact ⟨final, (Nat.le_succ claim).trans le, returned⟩

/-- A pop that has claimed its ticket returns when the head has come past it. -/
theorem pop_returns {claim later : Nat} {thread : Thread} {change : Element → Element}
    (pc : (run.state claim).pc thread = .fetchTail change)
    (taken : run.action claim = some (.step thread))
    (past : (run.state claim).tail.toNat < (run.state later).head.toNat) :
    ∃ last ≥ claim, .returned thread .unit ∈ run.events last := by
  have step := advance_of_step run taken
  have fewLater := few (claim + 1)
  rw [Behaviour.trace] at fewLater
  have counted := counted_advance step ((sound_at run few claim).small fewLater) .tail
  rw [pc, advance] at step
  obtain ⟨after, told⟩ := Prod.mk.inj (Option.some.inj step)
  have last : ((run.state (claim + 1)).pc thread).last =
      some (.tail, (run.state claim).tail.toNat, .unit) := by
    rw [← after, State.setPc_pc_self]
    rfl
  have claimed : (run.state claim).tail.toNat < (run.state (claim + 1)).tail.toNat := by
    have more := counted.1
    rw [← told] at more
    have same : (run.state (claim + 1)).tail.toNat = (run.state claim).tail.toNat + 1 := more
    omega
  have met : Met capacity (run.state (max (claim + 1) later)) .tail
      (run.state claim).tail.toNat := by
    have tails : (run.state (claim + 1)).tail.toNat ≤
        (run.state (max (claim + 1) later)).tail.toNat :=
      count_mono run few (le_max_left (claim + 1) later) .tail
    have heads : (run.state later).head.toNat ≤
        (run.state (max (claim + 1) later)).head.toNat :=
      count_mono run few (le_max_right (claim + 1) later) .head
    exact ⟨by omega, by omega⟩
  obtain ⟨final, le, returned⟩ := returns_of_last run few fair last met
  exact ⟨final, (Nat.le_succ claim).trans le, returned⟩

/-- A thread that has entered a slot leaves it. -/
theorem window_left {moment : Nat} {thread : Thread} {side : Side} {ticket : Nat}
    (inside : ((run.state moment).pc thread).window = some (side, ticket)) :
    ∃ later ≥ moment, (pass capacity side ticket).turn <
      ((run.state later).slots (pass capacity side ticket).place).turn.toNat := by
  have orderly := (sound_at run few moment).orderly
  have good := orderly.inside_good thread _ ⟨side, ticket, inside, rfl⟩
  obtain ⟨held, small⟩ : (∃ count, ((run.state moment).pc thread).held =
      some (side, ticket, count + 1)) ∧ ticket < 2 ^ 64 := by
    cases pc : (run.state moment).pc thread <;> rw [pc] at inside <;> cases inside <;>
      exact ⟨⟨_, rfl⟩, UInt64.toNat_lt _⟩
  exact leadsTo_of_atTurn run few fair small moment ⟨held, good⟩

end Returns

/-- No call starves. -/
structure Served (capacity : Capacity) {moved : Element → Element} {bytes : UInt64 → Element}
    (run : Behaviour (system capacity moved) (start bytes : State Thread Element)) : Prop where
  /-- A call in progress takes its next step; one that waits so comes to claim its tickets. -/
  goes : ∀ moment thread, (run.state moment).pc thread ≠ .idle →
    ∃ later ≥ moment, (run.state later).pc thread = (run.state moment).pc thread ∧
      run.action later = some (.step thread)
  /-- A push that waits returns, if the tail comes within the capacity of the last ticket that the
  push claims. -/
  push : ∀ claim thread writes, (run.state claim).pc thread = .fetchHead writes →
    run.action claim = some (.step thread) →
    ∀ later, (run.state claim).head.toNat + writes.length ≤
        (run.state later).tail.toNat + capacity.value.toNat →
      ∃ last ≥ claim, .returned thread .unit ∈ run.events last
  /-- A pop that waits returns, if the head comes past the ticket that the pop claims. -/
  pop : ∀ claim thread change, (run.state claim).pc thread = .fetchTail change →
    run.action claim = some (.step thread) →
    ∀ later, (run.state claim).tail.toNat < (run.state later).head.toNat →
      ∃ last ≥ claim, .returned thread .unit ∈ run.events last
  /-- A thread that has entered a slot, with or without waiting for it, leaves it. -/
  leaves : ∀ moment thread side ticket,
    ((run.state moment).pc thread).window = some (side, ticket) →
    ∃ later ≥ moment, (pass capacity side ticket).turn <
      ((run.state later).slots (pass capacity side ticket).place).turn.toNat

/-- In every behaviour that treats the threads fairly. -/
theorem served_of_fair (few : ∀ moment, FewTickets (run.trace moment))
    (fair : ∀ thread, run.WeaklyFair (.step thread)) : Served capacity run where
  goes _ _ inside := exists_step run fair inside
  push _ _ _ pc taken _ close := push_returns run few fair pc taken close
  pop _ _ _ pc taken _ past := pop_returns run few fair pc taken past
  leaves _ _ _ _ inside := window_left run few fair inside

end Fair

section Example

/-- In `exchange` two elements are pushed at once into one slot. -/
theorem served_exchange : ∃ run : Behaviour (system oneSlot id)
      (start (fun _ => 0) : State Bool Nat),
    (∀ thread, run.WeaklyFair (.step thread)) ∧ run.action 3 = some (.step false) ∧
    (∃ writes, (run.state 3).pc false = .fetchHead writes ∧ writes.length = 2) ∧
    ∃ last ≥ 3, .returned false .unit ∈ run.events last := by
  have ended : (execute (system oneSlot id) (start fun _ => 0) exchange).map
      (fun reached => ((reached.1.pc false).side, (reached.1.pc true).side, reached.2)) =
        some (none, none, exchanged) := rfl
  obtain ⟨⟨s, _⟩, executed, same⟩ := Option.map_eq_some_iff.mp ended
  obtain ⟨first, same⟩ := Prod.mk.inj same
  obtain ⟨second, rfl⟩ := Prod.mk.inj same
  have finished (thread : Bool) : system oneSlot id s (.step thread) = none := by
    have idle : (s.pc thread).side = none := by
      cases thread
      · exact first
      · exact second
    rw [system]
    cases pc : s.pc thread <;> rw [pc] at idle <;> cases idle
    rfl
  have fair (thread : Bool) := weaklyFair_ofSchedule executed (finished thread)
  have few (moment : Nat) : FewTickets
      ((Behaviour.ofSchedule (system oneSlot id) (start fun _ => 0) exchange).trace moment) := by
    obtain ⟨rest, later⟩ := (Behaviour.ofSchedule (system oneSlot id) (start fun _ => 0)
      exchange).trace_append (le_max_left moment exchange.length)
    rw [trace_of_length_le executed (le_max_right _ _)] at later
    have all : FewTickets (exchanged ++ []) := by
      intro side
      cases side <;> decide
    have reachedAll : (Behaviour.ofSchedule (system oneSlot id) (start fun _ => 0) exchange).trace
        exchange.length = exchanged := rfl
    rw [List.append_nil, ← reachedAll, later] at all
    exact all.of_append
  exact ⟨_, fair, rfl, ⟨_, rfl, rfl⟩,
    (served_of_fair _ few fair).push 3 false _ rfl rfl 23 (by decide)⟩

end Example

end MPMCQueue

end Sheep
