/-
This file gives every ticket of the head a value: the element that its producer
writes. What a producer will write may depend on bytes it has not found yet, so
the values are read off the end of a run; those of tickets that still wait are
only possible ones. Values that are faithful at the end of a run were so all the
way.
-/

import Sheep.QueueDelivery

namespace Sheep

open Turnstile Transitions

namespace MPMCQueue

variable {Thread Element : Type} {capacity : Capacity} {s next : State Thread Element}
  {thread : Thread} {events trace : List (Event Thread Element)}

/-! ### What producers owe -/

/-- The writes of a push that come after the one at hand. -/
def AfterPush.rest : AfterPush Element → List (Element → Element)
  | .bulk rest => rest
  | .returnTrue => []

/-- The writes a producer has still to make, from which ticket on. -/
def Pc.owed : Pc Element → Nat × List (Element → Element)
  | .awaitFree ticket write rest => (ticket.toNat, write :: rest)
  | .construct ticket write after => (ticket.toNat, write :: after.rest)
  | .publish ticket after => (ticket.toNat + 1, after.rest)
  | _ => (0, [])

/-- The thread is going to write an element with the ticket. -/
def Pc.Owes (pc : Pc Element) (ticket : Nat) (write : Element → Element) : Prop :=
  ticket < 2 ^ 64 ∧ pc.owed.1 ≤ ticket ∧ pc.owed.2[ticket - pc.owed.1]? = some write

/-- The values are those of the tickets that have been used, and possible for those that wait. -/
structure Faithful (value : Nat → Element) (s : State Thread Element)
    (trace : List (Event Thread Element)) : Prop where
  constructed : ∀ producer ticket element, .constructed producer ticket element ∈ trace →
    element = value ticket.toNat
  owed : ∀ thread ticket write, (s.pc thread).Owes ticket write → ∃ found,
    value ticket = write found

theorem length_rest (after : AfterPush Element) : after.rest.length = after.left := by
  cases after <;> rfl

theorem not_owes_of_none {pc : Pc Element} {ticket : Nat} {write : Element → Element}
    (none : pc.owed.2 = []) : ¬ pc.Owes ticket write := by
  rintro ⟨_, _, here⟩
  rw [none] at here
  cases here

/-- A write that is owed has a ticket that is held. -/
theorem Pc.Owes.holds {pc : Pc Element} {ticket : Nat} {write : Element → Element}
    (owes : pc.Owes ticket write) : pc.Holds .head ticket := by
  obtain ⟨small, low, here⟩ := owes
  have high := (List.getElem?_eq_some_iff.mp here).1
  cases pc with
  | awaitFree i first rest =>
    simp only [Pc.owed, List.length_cons] at high low
    exact ⟨small, _, _, rfl, low, by omega⟩
  | construct i first after =>
    simp only [Pc.owed, List.length_cons, length_rest] at high low
    exact ⟨small, _, _, rfl, low, by omega⟩
  | publish i after =>
    simp only [Pc.owed, length_rest] at high low
    exact ⟨small, _, _, rfl, by omega, by omega⟩
  | _ => cases here

/-- The first write of what is owed, and the others. -/
theorem owes_cons {pc pc' : Pc Element} {first ticket : Nat} {write other : Element → Element}
    {rest : List (Element → Element)} (owed : pc.owed = (first, write :: rest))
    (owed' : pc'.owed = (first + 1, rest)) :
    pc.Owes ticket other ↔
      (ticket < 2 ^ 64 ∧ ticket = first ∧ other = write) ∨ pc'.Owes ticket other := by
  rw [Pc.Owes, Pc.Owes, owed, owed']
  rcases Nat.lt_trichotomy ticket first with less | same | more
  · constructor
    · rintro ⟨_, low, _⟩
      omega
    · rintro (⟨_, same, _⟩ | ⟨_, low, _⟩) <;> omega
  · subst same
    rw [Nat.sub_self, List.getElem?_cons_zero]
    constructor
    · rintro ⟨small, _, here⟩
      exact Or.inl ⟨small, rfl, (Option.some.inj here).symm⟩
    · rintro (⟨small, _, rfl⟩ | ⟨_, low, _⟩)
      · exact ⟨small, le_refl _, rfl⟩
      · omega
  · have before : ticket - first = (ticket - (first + 1)) + 1 := by omega
    rw [before, List.getElem?_cons_succ]
    constructor
    · rintro ⟨small, _, here⟩
      exact Or.inr ⟨small, more, here⟩
    · rintro (⟨_, same, _⟩ | ⟨small, _, here⟩)
      · omega
      · exact ⟨small, more.le, here⟩

/-- Going on with the next ticket of a push. -/
theorem owes_pushNext {i : UInt64} {after : AfterPush Element} (small : i.toNat + 1 < 2 ^ 63)
    {ticket : Nat} {write : Element → Element} :
    ((after.next thread (i + 1)).1).Owes ticket write ↔
      (Pc.publish i after : Pc Element).Owes ticket write := by
  cases after with
  | returnTrue => exact iff_of_false (not_owes_of_none rfl) (not_owes_of_none rfl)
  | bulk rest =>
    cases rest with
    | nil => exact iff_of_false (not_owes_of_none rfl) (not_owes_of_none rfl)
    | cons first rest =>
      have owed : ((AfterPush.bulk (first :: rest)).next thread (i + 1)).1.owed =
          (Pc.publish i (.bulk (first :: rest)) : Pc Element).owed := by
        show ((i + 1).toNat, first :: rest) = _
        rw [toNat_add_one small]
        rfl
      rw [Pc.Owes, owed]
      rfl

theorem owed_popNext (ticket : UInt64) (after : AfterPop Element) :
    ((after.next thread ticket).1).owed.2 = [] := by
  cases after <;> rfl

/-- The write of a producer at its ticket. -/
theorem owes_first {pc : Pc Element} {first : UInt64} {write : Element → Element}
    {rest : List (Element → Element)} (owed : pc.owed = (first.toNat, write :: rest)) :
    pc.Owes first.toNat write := by
  refine ⟨first.toNat_lt, ?_⟩
  rw [owed, Nat.sub_self]
  exact ⟨le_refl _, rfl⟩

theorem small_of_publish (sound : Sound capacity s trace) (few : FewTickets trace)
    (ticket : UInt64) (after : AfterPush Element) (pc : s.pc thread = .publish ticket after) :
    ticket.toNat + 1 < 2 ^ 63 :=
  (turn_of_window sound few (by rw [pc]; rfl : (s.pc thread).window = some (.head, _))).2

section Values

variable [DecidableEq Thread]

/-- A step makes the first write that is owed, or none. -/
theorem owes_of_advance (step : advance capacity s thread (s.pc thread) = some (next, events))
    (small : ∀ ticket after, s.pc thread = .publish ticket after → ticket.toNat + 1 < 2 ^ 63)
    {ticket : Nat} {write : Element → Element} (owes : (s.pc thread).Owes ticket write) :
    (next.pc thread).Owes ticket write ∨ ∃ i found, i.toNat = ticket ∧
      events = [.constructed thread i (write found)] := by
  have same {pc : Pc Element} (pcs : next.pc thread = pc) (owed : pc.owed = (s.pc thread).owed) :
      (next.pc thread).Owes ticket write := by
    rw [pcs, Pc.Owes, owed]
    exact owes
  have nothing (none : (s.pc thread).owed.2 = []) : (next.pc thread).Owes ticket write :=
    absurd owes (not_owes_of_none none)
  cases advances_of_advance step with
  | enterFree pc => exact Or.inl (same (State.setPc_pc_self ..) (by rw [pc]; rfl))
  | spinFree pc | spinFull pc => exact Or.inl owes
  | @construct i first after pc =>
    rw [State.setPc_pc_self]
    rw [pc] at owes
    rcases (owes_cons rfl (rfl : (Pc.publish i after).owed = _)).mp owes with
      ⟨_, rfl, rfl⟩ | later
    · exact Or.inr ⟨i, _, rfl, rfl⟩
    · exact Or.inl later
  | @publish i after pc =>
    rw [State.setPc_pc_self, owes_pushNext (small i after pc), ← pc]
    exact Or.inl owes
  | fetchHead pc | loadHead pc | matchFree pc | missFree pc | winHead pc | loseHead pc
  | giveUpHead pc | retryHead pc | fetchTail pc | enterFull pc | loadTail pc | matchFull pc
  | missFull pc | winTail pc | loseTail pc | giveUpTail pc | retryTail pc | read pc | destroy pc
  | release pc => exact Or.inl (nothing (by rw [pc]; rfl))

/-- What is owed after a step was owed before, or its ticket is new. -/
theorem owes_before_advance
    (step : advance capacity s thread (s.pc thread) = some (next, events))
    (small : ∀ ticket after, s.pc thread = .publish ticket after → ticket.toNat + 1 < 2 ^ 63)
    {ticket : Nat} {write : Element → Element} (owes : (next.pc thread).Owes ticket write) :
    ((s.pc thread).Owes ticket write ∨ s.head.toNat ≤ ticket) ∧
      ∀ producer i element, .constructed producer i element ∈ events → i.toNat ≠ ticket := by
  have nothing {pc : Pc Element} (pcs : next.pc thread = pc) (none : pc.owed.2 = [])
      {P : Prop} : P := by
    rw [pcs] at owes
    exact absurd owes (not_owes_of_none none)
  cases advances_of_advance step with
  | @fetchHead writes pc =>
    rw [State.setPc_pc_self] at owes
    refine ⟨Or.inr ?_, ?_⟩
    · exact (holds_pushNext.mp owes.holds).2.2.1
    · intro producer i element member
      rcases List.mem_cons.mp member with same | member
      · cases same
      · obtain ⟨_, same⟩ := returned_of_pushNext member
        cases same
  | @winHead write pc =>
    rw [State.setPc_pc_self] at owes
    refine ⟨Or.inr owes.2.1, fun producer i element member => ?_⟩
    cases List.mem_singleton.mp member
  | enterFree pc =>
    rw [State.setPc_pc_self] at owes
    refine ⟨Or.inl ?_, fun _ _ _ member => absurd member List.not_mem_nil⟩
    rw [pc]
    exact owes
  | spinFree pc | spinFull pc =>
    exact ⟨Or.inl owes, fun _ _ _ member => absurd member List.not_mem_nil⟩
  | @construct i first after pc =>
    rw [State.setPc_pc_self] at owes
    refine ⟨Or.inl ?_, fun producer i' element member => ?_⟩
    · rw [pc]
      exact (owes_cons rfl rfl).mpr (Or.inr owes)
    · cases List.mem_singleton.mp member
      have later : i.toNat + 1 ≤ ticket := owes.2.1
      omega
  | @publish i after pc =>
    rw [State.setPc_pc_self, owes_pushNext (small i after pc), ← pc] at owes
    refine ⟨Or.inl owes, fun producer i' element member => ?_⟩
    obtain ⟨_, same⟩ := returned_of_pushNext member
    cases same
  | release pc => exact nothing (State.setPc_pc_self ..) (owed_popNext _ _)
  | _ => exact nothing (State.setPc_pc_self ..) rfl

variable {moved : Element → Element} {bytes : UInt64 → Element}

/-- Values that are faithful after a step were so before. -/
theorem faithful_before {value : Nat → Element} (sound : Sound capacity s trace)
    (few : FewTickets trace) (faithful : Faithful value next (trace ++ events))
    (step : advance capacity s thread (s.pc thread) = some (next, events)) :
    Faithful value s trace where
  constructed producer ticket element member :=
    faithful.constructed producer ticket element (List.mem_append_left _ member)
  owed other ticket write owes := by
    by_cases this : other = thread
    · subst this
      rcases owes_of_advance step (small_of_publish sound few) owes with
        later | ⟨i, found, rfl, rfl⟩
      · exact faithful.owed _ _ _ later
      · exact ⟨found, (faithful.constructed _ _ _
          (List.mem_append_right _ List.mem_cons_self)).symm⟩
    · refine faithful.owed other ticket write ?_
      rw [pc_advance_other step this]
      exact owes

/-- What has been written with a ticket is one element, and nobody is going to write another. -/
structure Written (s : State Thread Element) (trace : List (Event Thread Element)) : Prop where
  once : ∀ producer producer' ticket element element',
    .constructed producer ticket element ∈ trace →
    .constructed producer' ticket element' ∈ trace → element = element'
  done : ∀ producer ticket element, .constructed producer ticket element ∈ trace →
    ∀ thread write, ¬ (s.pc thread).Owes ticket.toNat write

/-- The thread that constructs has owed the element. -/
theorem owes_of_constructed {producer : Thread} {ticket : UInt64} {element : Element}
    (step : advance capacity s thread (s.pc thread) = some (next, events))
    (member : .constructed producer ticket element ∈ events) :
    events = [.constructed producer ticket element] ∧
      ∃ write, (s.pc thread).Owes ticket.toNat write := by
  cases advances_of_advance step with
  | @construct i write after pc =>
    cases List.mem_singleton.mp member
    refine ⟨rfl, write, ?_⟩
    rw [pc]
    exact owes_first rfl
  | fetchHead pc =>
    rcases List.mem_cons.mp member with same | member
    · cases same
    · obtain ⟨_, same⟩ := returned_of_pushNext member
      cases same
  | publish pc =>
    obtain ⟨_, same⟩ := returned_of_pushNext member
    cases same
  | release pc =>
    obtain ⟨_, same⟩ := returned_of_popNext member
    cases same
  | winHead | giveUpHead | fetchTail | winTail | giveUpTail | read | destroy =>
    cases List.mem_singleton.mp member
  | _ => cases member

theorem written_advance (sound : Sound capacity s trace) (few : FewTickets trace)
    (claimed : ∀ producer ticket element, .constructed producer ticket element ∈ trace →
      ticket.toNat < s.head.toNat)
    (written : Written s trace)
    (step : advance capacity s thread (s.pc thread) = some (next, events)) :
    Written next (trace ++ events) where
  once producer producer' ticket element element' first second := by
    rcases List.mem_append.mp first with old | new <;>
      rcases List.mem_append.mp second with old' | new'
    · exact written.once _ _ _ _ _ old old'
    · obtain ⟨_, write, owes⟩ := owes_of_constructed step new'
      exact absurd owes (written.done _ _ _ old _ _)
    · obtain ⟨_, write, owes⟩ := owes_of_constructed step new
      exact absurd owes (written.done _ _ _ old' _ _)
    · rw [(owes_of_constructed step new).1, List.mem_singleton] at new'
      cases new'
      rfl
  done producer ticket element member other write owes := by
    by_cases this : other = thread
    · subst this
      obtain ⟨before, fresh⟩ := owes_before_advance step (small_of_publish sound few) owes
      rcases List.mem_append.mp member with old | new
      · rcases before with owed | unclaimed
        · exact written.done _ _ _ old _ _ owed
        · exact absurd (claimed _ _ _ old) (Nat.not_lt.mpr unclaimed)
      · exact fresh _ _ _ new rfl
    · rw [pc_advance_other step this] at owes
      rcases List.mem_append.mp member with old | new
      · exact written.done _ _ _ old _ _ owes
      · -- two threads do not hold one ticket
        obtain ⟨_, write', owes'⟩ := owes_of_constructed step new
        exact this (sound.orderly.held_once _ _ _ ⟨_, _, owes.holds, rfl⟩
          ⟨_, _, owes'.holds, rfl⟩)

theorem written_of_reaches (run : Reaches (system capacity moved) (start bytes) s trace)
    (few : FewTickets trace) : Written s trace := by
  refine run.invariant (fun s trace => FewTickets trace → Written s trace)
    (fun _ => ⟨fun _ _ _ _ _ member => absurd member List.not_mem_nil,
      fun _ _ _ member => absurd member List.not_mem_nil⟩) ?_ few
  intro s trace action next events run inductionHypothesis step few
  have written := inductionHypothesis few.of_append
  rcases system_cases step with ⟨caller, op, idle, rfl, rfl⟩ | ⟨stepper, advanced⟩
  · have old {producer : Thread} {ticket : UInt64} {element : Element}
        (member : .constructed producer ticket element ∈ trace ++ [.called caller op]) :
        .constructed producer ticket element ∈ trace :=
      (List.mem_append.mp member).resolve_right fun new => by cases List.mem_singleton.mp new
    refine ⟨fun _ _ _ _ _ first second => written.once _ _ _ _ _ (old first) (old second),
      fun producer ticket element member thread write owes => ?_⟩
    by_cases this : thread = caller
    · subst this
      rw [State.setPc_pc_self] at owes
      refine not_owes_of_none ?_ owes
      cases op <;> rfl
    · rw [State.setPc_pc_other _ _ _ this] at owes
      exact written.done _ _ _ (old member) _ _ owes
  · have sound := sound_of_reaches run few.of_append
    refine written_advance sound few.of_append (fun producer ticket element member => ?_) written
      advanced
    obtain ⟨before, after, split⟩ := List.append_of_mem member
    obtain ⟨event, here, _, mine⟩ := claimed_of_uses run few.of_append split rfl
    have all : ticket.toNat ∈ claims .head trace :=
      List.mem_flatMap.mpr ⟨event, by rw [split]; exact List.mem_append_left _ here, mine⟩
    rw [sound.claimed .head] at all
    exact List.mem_range.mp all

/-- The values of the tickets, as the end of a run shows them. -/
theorem exists_faithful (run : Reaches (system capacity moved) (start bytes) s trace)
    (few : FewTickets trace) : ∃ value, Faithful value s trace := by
  have whole := written_of_reaches run few
  have orderly := (sound_of_reaches run few).orderly
  have chosen (ticket : Nat) : ∃ element,
      (∀ producer i found, .constructed producer i found ∈ trace → i.toNat = ticket →
        found = element) ∧
      ∀ thread write, (s.pc thread).Owes ticket write → ∃ found, element = write found := by
    by_cases written : ∃ producer i found, .constructed producer i found ∈ trace ∧ i.toNat = ticket
    · obtain ⟨producer, i, found, member, rfl⟩ := written
      refine ⟨found, fun producer' i' found' member' same => ?_, fun thread write owes => ?_⟩
      · rw [UInt64.toNat_inj] at same
        subst same
        exact whole.once _ _ _ _ _ member' member
      · exact absurd owes (whole.done _ _ _ member _ _)
    · by_cases owed : ∃ thread write, (s.pc thread).Owes ticket write
      · obtain ⟨thread, write, owes⟩ := owed
        refine ⟨write (bytes 0), fun producer i found member same =>
          absurd ⟨producer, i, found, member, same⟩ written, fun other write' owes' => ?_⟩
        have same := orderly.held_once _ _ _ ⟨_, _, owes'.holds, rfl⟩ ⟨_, _, owes.holds, rfl⟩
        subst same
        have one := owes'.2.2.symm.trans owes.2.2
        exact ⟨bytes 0, by rw [Option.some.inj one]⟩
      · exact ⟨bytes 0, fun producer i found member same =>
          absurd ⟨producer, i, found, member, same⟩ written,
          fun thread write owes => absurd ⟨thread, write, owes⟩ owed⟩
  choose value written owed using chosen
  exact ⟨value, fun producer ticket element member => written _ producer ticket element member rfl,
    fun thread ticket write owes => owed ticket thread write owes⟩

end Values

end MPMCQueue

end Sheep
