/-
This file says what a queue holds when it is looked at from outside: a list with a
place for each ticket from the tail on, which is empty until its element has been
written. A claim adds a place, a producer that is left alone fills its own, and a
`try_consume_all` that is left alone takes what has been written up to the first
empty place.
-/

import Mathlib.Data.Nat.ModEq
import Sheep.QueueDrain

namespace Sheep

open Transitions

namespace MPMCQueue

variable {Thread Element : Type} {capacity : Capacity} {moved : Element → Element}
  {s next : State Thread Element} {thread : Thread} {places : List (Option Element)}

/-! ### Places -/

/-- The elements up to the first empty place. -/
def written : List (Option Element) → List Element
  | some element :: rest => element :: written rest
  | _ => []

/-- The queue has these places from the tail on. -/
structure Shows (capacity : Capacity) (s : State Thread Element)
    (places : List (Option Element)) : Prop where
  head : s.head.toNat = s.tail.toNat + places.length
  full : ∀ i element, places[i]? = some (some element) → i < capacity.value.toNat ∧
    Ripe capacity s (s.tail + UInt64.ofNat i) ∧ (slotAhead capacity s i).data = element
  free : ∀ i < capacity.value.toNat, (∀ element, places[i]? ≠ some (some element)) →
    freeTurn capacity (s.tail + UInt64.ofNat i) = (slotAhead capacity s i).turn

theorem shows_start (capacity : Capacity) (bytes : UInt64 → Element) :
    Shows capacity (start bytes : State Thread Element) [] where
  head := rfl
  full _ _ place := by cases place
  free i less _ := by
    have bounded := capacity.le
    have ticket : ((0 : UInt64) + UInt64.ofNat i).toNat = 0 + i :=
      toNat_add_ofNat (show 0 + i < 2 ^ 63 by omega)
    have turn : (freeTurn capacity (0 + UInt64.ofNat i)).toNat = 0 := by
      rw [toNat_freeTurn capacity (by omega), ticket, Nat.zero_add, Nat.div_eq_of_lt less]
    exact UInt64.toNat_inj.mp turn

/-- Tickets less than a lap apart have different slots. -/
theorem getSlot_ahead_inj {i j : Nat} (less : i < capacity.value.toNat)
    (less' : j < capacity.value.toNat) (few : s.tail.toNat + capacity.value.toNat < 2 ^ 63)
    (same : getSlot capacity (s.tail + UInt64.ofNat i) =
      getSlot capacity (s.tail + UInt64.ofNat j)) : i = j := by
  rw [← UInt64.toNat_inj, toNat_getSlot, toNat_getSlot, toNat_add_ofNat (by omega),
    toNat_add_ofNat (by omega)] at same
  have close : i % capacity.value.toNat = j % capacity.value.toNat :=
    Nat.ModEq.add_left_cancel' s.tail.toNat same
  rwa [Nat.mod_eq_of_lt less, Nat.mod_eq_of_lt less'] at close

/-- A slot that waits for a producer is not ripe. -/
theorem not_ripe_of_free {ticket : UInt64} (small : ticket.toNat < 2 ^ 63)
    (free : freeTurn capacity ticket = (s.slots (getSlot capacity ticket)).turn) :
    ¬ Ripe capacity s ticket := by
  intro ripe
  rw [Ripe, ← free] at ripe
  have turns := congrArg UInt64.toNat ripe
  rw [toNat_fullTurn capacity small, toNat_freeTurn capacity small] at turns
  omega

/-! ### Claims and elements -/

variable [DecidableEq Thread]

theorem Shows.setPc (holds : Shows capacity s places) (thread : Thread) (pc : Pc Element) :
    Shows capacity (s.setPc thread pc) places :=
  ⟨holds.head, holds.full, holds.free⟩

/-- A claim adds an empty place. -/
theorem Shows.claim (holds : Shows capacity s places) {write : Element → Element}
    (pc : s.pc thread = .fetchHead [write]) (few : s.head.toNat + 1 < 2 ^ 63) :
    ∃ next, system capacity moved s (.step thread) =
        some (next, [.claimedHead thread s.head 1]) ∧
      next.pc = Function.update s.pc thread (.awaitFree s.head write []) ∧ next.tail = s.tail ∧
      Shows capacity next (places ++ [none]) := by
  refine ⟨_, step_eq pc, rfl, rfl, ?_, fun i element place => ?_, fun i less empty => ?_⟩
  · show (s.head + UInt64.ofNat 1).toNat = _
    rw [toNat_add_ofNat few, holds.head, List.length_append, List.length_singleton, Nat.add_assoc]
    rfl
  · refine holds.full i element ?_
    by_cases inside : i < places.length
    · rwa [List.getElem?_append_left inside] at place
    · rw [List.getElem?_append_right (Nat.not_lt.mp inside)] at place
      cases gap : i - places.length <;> rw [gap] at place <;> cases place
  · refine holds.free i less fun element place => empty element ?_
    rw [List.getElem?_append_left (List.getElem?_eq_some_iff.mp place).1]
    exact place

/-- The state in which a producer leaves the window of its ticket. -/
def State.fill (capacity : Capacity) (s : State Thread Element) (thread : Thread) (ticket : UInt64)
    (write : Element → Element) : State Thread Element :=
  let index := getSlot capacity ticket
  (s.setSlot index (((s.slots index).construct ticket write).setTurn
    (fullTurn capacity ticket))).setPc thread .idle

/-- A producer whose slot is free writes its element and returns. -/
theorem execute_write (moved : Element → Element) {ticket : UInt64} {write : Element → Element}
    (pc : s.pc thread = .awaitFree ticket write [])
    (free : freeTurn capacity ticket = (s.slots (getSlot capacity ticket)).turn) :
    execute (system capacity moved) s (List.replicate 3 (.step thread)) =
      some (s.fill capacity thread ticket write,
        [.constructed thread ticket (write (s.slots (getSlot capacity ticket)).data),
          .returned thread .unit]) := by
  have awaited : system capacity moved s (.step thread) = _ := (step_eq pc).trans (if_pos free)
  have constructed : system capacity moved _ (.step thread) = _ :=
    step_eq (State.setPc_pc_self s thread (.construct ticket write (.bulk [])))
  rw [advance, State.setPc_slots] at constructed
  have published : system capacity moved _ (.step thread) = _ :=
    step_eq (State.setPc_pc_self ((s.setPc thread (.construct ticket write (.bulk []))).setSlot
      (getSlot capacity ticket) ((s.slots (getSlot capacity ticket)).construct ticket write)) thread
      (.publish ticket (.bulk [])))
  rw [advance, State.setPc_slots, State.setSlot_slots_self, setSlot_setPc_setSlot,
    State.setPc_setPc] at published
  have last (s : State Thread Element) : execute (system capacity moved) s [] = some (s, []) := rfl
  have run := execute_cons awaited (execute_cons constructed (execute_cons published (last _)))
  have filled : (((s.setPc thread (.construct ticket write (.bulk []))).setSlot
      (getSlot capacity ticket) (((s.slots (getSlot capacity ticket)).construct ticket
        write).setTurn (fullTurn capacity ticket))).setPc thread .idle) =
      s.fill capacity thread ticket write := by
    simp only [State.fill, State.setSlot, State.setPc, Function.update_idem]
  rw [← filled]
  exact run

/-- The slots of the other tickets of the lap stay. -/
theorem slotAhead_fill (s : State Thread Element) (thread : Thread) (write : Element → Element)
    {i j : Nat} (less : i < capacity.value.toNat) (less' : j < capacity.value.toNat)
    (few : s.tail.toNat + capacity.value.toNat < 2 ^ 63) (different : i ≠ j) :
    slotAhead capacity (s.fill capacity thread (s.tail + UInt64.ofNat i) write) j =
      slotAhead capacity s j :=
  State.setSlot_slots_other _ _ _ fun same => different
    (getSlot_ahead_inj less less' few same.symm)

/-- A producer that is left alone fills its place once the place is within a lap. -/
theorem Shows.write (holds : Shows capacity s places)
    (few : s.tail.toNat + capacity.value.toNat < 2 ^ 63) {i : Nat} {write : Element → Element}
    (pc : s.pc thread = .awaitFree (s.tail + UInt64.ofNat i) write [])
    (claimed : places[i]? = some none) (lap : i < capacity.value.toNat) :
    ∃ next, execute (system capacity moved) s (List.replicate 3 (.step thread)) =
        some (next, [.constructed thread (s.tail + UInt64.ofNat i)
          (write (slotAhead capacity s i).data), .returned thread .unit]) ∧
      next.pc = Function.update s.pc thread .idle ∧ next.tail = s.tail ∧ next.head = s.head ∧
      Shows capacity next (places.set i (some (write (slotAhead capacity s i).data))) := by
  have free := holds.free i lap fun element place => by
    rw [claimed] at place
    cases place
  refine ⟨_, execute_write moved pc free, rfl, rfl, rfl, ?_, fun j element place => ?_,
    fun j less empty => ?_⟩
  · rw [List.length_set]
    exact holds.head
  · by_cases this : i = j
    · subst this
      rw [List.getElem?_set_self (List.getElem?_eq_some_iff.mp claimed).1] at place
      cases place
      have slot : slotAhead capacity (s.fill capacity thread (s.tail + UInt64.ofNat i) write) i =
          ((slotAhead capacity s i).construct (s.tail + UInt64.ofNat i) write).setTurn
            (fullTurn capacity (s.tail + UInt64.ofNat i)) := State.setSlot_slots_self ..
      exact ⟨lap, congrArg Slot.turn slot.symm, congrArg Slot.data slot⟩
    · rw [List.getElem?_set_ne this] at place
      obtain ⟨less, ripe, data⟩ := holds.full j element place
      have slot := slotAhead_fill s thread write lap less few this
      exact ⟨less, ripe.trans (congrArg Slot.turn slot.symm), (congrArg Slot.data slot).trans data⟩
  · have this : i ≠ j := by
      rintro rfl
      exact empty _ (List.getElem?_set_self (List.getElem?_eq_some_iff.mp claimed).1)
    have slot := slotAhead_fill s thread write lap less few this
    refine (holds.free j less fun element place => empty element ?_).trans
      (congrArg Slot.turn slot.symm)
    rw [List.getElem?_set_ne this]
    exact place

/-! ### Taking -/

omit [DecidableEq Thread] in
/-- A pass of the loop at a written place takes it. -/
theorem Took.shows {after : AfterPop Element} {element : Element}
    (took : Took capacity s next thread after) (holds : Shows capacity s (some element :: places))
    (few : s.tail.toNat + capacity.value.toNat < 2 ^ 63) : Shows capacity next places := by
  have tail : next.tail.toNat = s.tail.toNat + 1 := by
    rw [took.tail, toNat_add_one]
    have positive := capacity.pos
    omega
  refine ⟨?_, fun i element' place => ?_, fun i less empty => ?_⟩
  · rw [took.head, holds.head, tail, List.length_cons]
    omega
  · obtain ⟨less, ripe, data⟩ := holds.full (i + 1) element' place
    refine ⟨by omega, (took.ripe_iff less (by omega)).mpr ripe, ?_⟩
    rw [took.slotAhead less (by omega)]
    exact data
  · by_cases inside : i + 1 < capacity.value.toNat
    · rw [took.ticket, took.slotAhead inside (by omega)]
      exact holds.free (i + 1) inside empty
    · -- the slot that has just been released, a lap later
      have lap : i + 1 = capacity.value.toNat := by omega
      have far := toNat_add_ofNat few
      have turns : freeTurn capacity (s.tail + UInt64.ofNat capacity.value.toNat) =
          releasedTurn capacity s.tail := by
        rw [← UInt64.toNat_inj, toNat_freeTurn capacity (by omega),
          toNat_releasedTurn capacity (by have positive := capacity.pos; omega), far,
          Nat.add_div_right _ capacity.pos]
        omega
      rw [MPMCQueue.slotAhead, took.ticket, lap, getSlot_lap few, turns, took.turn]

/-- The elements that some events have taken, with the tickets. -/
def takenIn (events : List (Event Thread Element)) : List (Element × Nat) :=
  (events.flatMap Event.taken).map fun entry => (entry.2, entry.1.toNat)

/-- From the top of its loop, a call that had taken so many elements before has taken what was
written up to the first empty place, and returned. -/
structure Drained (capacity : Capacity) (s : State Thread Element) (thread : Thread) (count : Nat)
    (places : List (Option Element)) (next : State Thread Element)
    (events : List (Event Thread Element)) : Prop where
  idle : next.pc thread = .idle
  elsewhere : ∀ other ≠ thread, next.pc other = s.pc other
  head : next.head = s.head
  tail : next.tail.toNat = s.tail.toNat + (written places).length
  shows : Shows capacity next (places.drop (written places).length)
  taken : takenIn events = (written places).zipIdx s.tail.toNat
  returns : returned events = some (.count (count + (written places).length))

/-- The loop ends where nothing has been written. -/
theorem Shows.giveUp (holds : Shows capacity s places)
    (few : s.tail.toNat + capacity.value.toNat < 2 ^ 63) {change : Element → Element} {count : Nat}
    (pc : s.pc thread = .testFull .many change s.tail count) (nothing : written places = []) :
    ∃ next events, execute (system capacity moved) s
        (List.replicate (5 * (written places).length + 2) (.step thread)) = some (next, events) ∧
      Drained capacity s thread count places next events := by
  have empty : ∀ element, places[0]? ≠ some (some element) := by
    intro element first
    cases places with
    | nil => cases first
    | cons place rest =>
      cases first
      cases nothing
  have free := holds.free 0 capacity.pos empty
  rw [slotAhead, ahead_zero] at free
  rw [nothing]
  refine ⟨_, _, execute_giveUp moved pc (not_ripe_of_free (by omega) free),
    State.setPc_pc_self _ _ _, fun _ different => State.setPc_pc_other _ _ _ different, rfl, ?_, ?_,
    ?_, ?_⟩ <;> rw [nothing]
  · rfl
  · exact holds.setPc _ _
  · rfl
  · rfl

/-- From the top of its loop a `try_consume_all` that is left alone takes what has been written up
to the first empty place. -/
theorem Shows.drain (holds : Shows capacity s places)
    (few : s.head.toNat + capacity.value.toNat < 2 ^ 63) {change : Element → Element} {count : Nat}
    (pc : s.pc thread = .testFull .many change s.tail count) :
    ∃ next events, execute (system capacity moved) s
        (List.replicate (5 * (written places).length + 2) (.step thread)) = some (next, events) ∧
      Drained capacity s thread count places next events := by
  have room : s.tail.toNat + capacity.value.toNat < 2 ^ 63 := by
    have head := holds.head
    omega
  induction places generalizing s count with
  | nil => exact holds.giveUp room pc rfl
  | cons place rest inductionHypothesis =>
    cases place with
    | none => exact holds.giveUp room pc rfl
    | some element =>
      obtain ⟨_, ripe, data⟩ := holds.full 0 element rfl
      rw [ahead_zero] at ripe
      rw [slotAhead, ahead_zero] at data
      obtain ⟨middle, execution, took⟩ := execute_take moved pc ripe
      have positive := capacity.pos
      have tail : middle.tail.toNat = s.tail.toNat + 1 := by
        rw [took.tail, toNat_add_one (by omega)]
      have holds' := took.shows holds room
      have head' := holds'.head
      rw [took.head] at head'
      obtain ⟨next, events, executed, drained⟩ := inductionHypothesis holds'
        (by rw [took.head]; exact few) (by rw [took.pc, took.tail]; rfl) (by omega)
      have steps : 5 * (written (some element :: rest)).length + 2 =
          5 + (5 * (written rest).length + 2) := by
        rw [written, List.length_cons]
        omega
      have whole := execute_append execution executed
      rw [← List.replicate_add, ← steps] at whole
      refine ⟨next, _, whole, drained.idle, fun other different => ?_,
        drained.head.trans took.head, ?_, drained.shows, ?_, ?_⟩
      · rw [drained.elsewhere other different, took.elsewhere other different]
      · rw [drained.tail, tail, written, List.length_cons]
        omega
      · rw [written, List.zipIdx_cons, ← tail, ← drained.taken, ← data]
        rfl
      · rw [written, List.length_cons, Nat.add_comm _ 1, ← Nat.add_assoc]
        exact drained.returns

/-! ### Calls that are left alone -/

/-- A call of `emplace_with` that nobody disturbs appends the element it makes in the slot. -/
theorem Shows.emplaceWith (holds : Shows capacity s places)
    (few : s.head.toNat + capacity.value.toNat < 2 ^ 63)
    (room : places.length < capacity.value.toNat)
    (idle : s.pc thread = .idle) (f : Element → Element) :
    ∃ next found, execute (system capacity moved) s
        (.call thread (.emplaceWith f) :: List.replicate 4 (.step thread)) =
        some (next, [.called thread (.emplaceWith f), .claimedHead thread s.head 1,
          .constructed thread s.head (f found), .returned thread .unit]) ∧
      next.pc = s.pc ∧ next.tail = s.tail ∧
      Shows capacity next (places ++ [some (f found)]) := by
  have positive := capacity.pos
  have head := holds.head
  have called : system capacity moved s (.call thread (.emplaceWith f)) =
      some (s.setPc thread (.fetchHead [f]), [.called thread (.emplaceWith f)]) := by
    rw [system, idle]
    rfl
  obtain ⟨middle, claimed, pcs, tail, shown⟩ :=
    (holds.setPc thread (.fetchHead [f])).claim (State.setPc_pc_self _ _ _)
      (by rw [State.setPc_head]; omega)
  rw [State.setPc_head] at pcs claimed
  rw [State.setPc_tail] at tail
  have ticket : s.head = middle.tail + UInt64.ofNat places.length := by
    rw [← UInt64.toNat_inj, tail, toNat_add_ofNat (by omega), head]
  have pc : middle.pc thread = .awaitFree (middle.tail + UInt64.ofNat places.length) f [] := by
    rw [pcs, Function.update_self, ticket]
  obtain ⟨next, wrote, pcs', tail', _, shown'⟩ :=
    shown.write (by rw [tail]; omega) pc List.getElem?_concat_length room
  refine ⟨next, _, execute_cons called (execute_cons claimed (ticket ▸ wrote)), ?_,
    tail'.trans tail, ?_⟩
  · have before : Function.update s.pc thread .idle = s.pc := by
      rw [← idle, Function.update_eq_self]
    rw [pcs', pcs, Function.update_idem, State.setPc, Function.update_idem, before]
  · have filled : (places ++ [none]).set places.length
        (some (f (slotAhead capacity middle places.length).data)) =
          places ++ [some (f (slotAhead capacity middle places.length).data)] := by simp
    rw [← filled]
    exact shown'

/-- A call of `try_consume_all` that nobody disturbs takes what has been written. -/
theorem Shows.tryConsumeAll (holds : Shows capacity s places)
    (few : s.head.toNat + capacity.value.toNat < 2 ^ 63) (idle : s.pc thread = .idle)
    (f : Element → Element) :
    ∃ next events, execute (system capacity moved) s (.call thread (.tryConsumeAll f) ::
        List.replicate (5 * (written places).length + 3) (.step thread)) =
        some (next, .called thread (.tryConsumeAll f) :: events) ∧
      next.pc = s.pc ∧ next.tail.toNat = s.tail.toNat + (written places).length ∧
      Shows capacity next (places.drop (written places).length) ∧
      takenIn events = (written places).zipIdx s.tail.toNat ∧
      returned events = some (.count (written places).length) := by
  have called : system capacity moved s (.call thread (.tryConsumeAll f)) =
      some (s.setPc thread (.loadTail .many f), [.called thread (.tryConsumeAll f)]) := by
    rw [system, idle]
    rfl
  have loaded : system capacity moved (s.setPc thread (.loadTail .many f)) (.step thread) = _ :=
    step_eq (State.setPc_pc_self _ _ _)
  rw [advance, State.setPc_setPc, State.setPc_tail] at loaded
  obtain ⟨next, events, executed, drained⟩ :=
    (holds.setPc thread (.testFull .many f s.tail 0)).drain few (State.setPc_pc_self _ _ _)
  have returns := drained.returns
  rw [Nat.zero_add] at returns
  refine ⟨next, _, execute_cons called (execute_cons loaded executed), funext fun other => ?_,
    drained.tail, drained.shows, drained.taken, returns⟩
  by_cases this : other = thread
  · subst this
    rw [drained.idle, idle]
  · rw [drained.elsewhere other this, State.setPc_pc_other _ _ _ this]

end MPMCQueue

end Sheep
