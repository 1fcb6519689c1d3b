/-
This file says what becomes of a queue in which a construction has thrown. The tickets
of the failed call are claimed and will never be published: whoever comes to wait
for one of them, or behind one in its slot, waits for ever, and what does not wait
gives up there. The elements of all other tickets are delivered as before.
-/

import Sheep.QueueDrain
import Sheep.QueueLifeCycle
import Sheep.QueueThrows

namespace Sheep

open Turnstile Transitions

namespace MPMCQueue

variable {Thread Element : Type} {capacity : Capacity}

/-! ### Attempts on their own -/

section Alone

variable {moved : Element → Element} {s : State Thread Element} {thread : Thread} {op : Op Element}
  {attempt : Attempt}

/-- What an attempt tells when its element has been taken: only `try_pop` returns then. -/
def Attempt.served (thread : Thread) : Attempt → List (Event Thread Element)
  | .one => [.returned thread (.bool true)]
  | .many => []

theorem entry_of_attempt (moved : Element → Element) (manner : op.manner = .attempt attempt) :
    ∃ change, op.entry moved = .loadTail attempt change := by
  cases op <;> cases manner <;> exact ⟨_, rfl⟩

theorem served_next (change : Element → Element) (ticket : UInt64) (attempt : Attempt) :
    ((attempt.after change 0).next thread ticket).2 = attempt.served thread := by
  cases attempt <;> rfl

variable [DecidableEq Thread]

theorem setPc_of_pc {pc : Pc Element} (same : s.pc thread = pc) : s.setPc thread pc = s := by
  rw [State.setPc, ← same, Function.update_eq_self]

/-- An idle thread that calls an operation. -/
theorem call_eq (capacity : Capacity) (moved : Element → Element) (op : Op Element)
    (idle : s.pc thread = .idle) :
    system capacity moved s (.call thread op) =
      some (s.setPc thread (op.entry moved), [.called thread op]) := by
  rw [system, idle]

theorem load_eq (change : Element → Element) :
    system capacity moved (s.setPc thread (.loadTail attempt change)) (.step thread) =
      some (s.setPc thread (.testFull attempt change s.tail 0), []) := by
  rw [step_eq (State.setPc_pc_self _ _ _), advance, State.setPc_setPc, State.setPc_tail]

/-- Where the element at the front has been published, an attempt takes it. -/
theorem attempt_full (moved : Element → Element) (idle : s.pc thread = .idle)
    (manner : op.manner = .attempt attempt)
    (full : fullTurn capacity s.tail = (s.slots (getSlot capacity s.tail)).turn) :
    ∃ s', execute (system capacity moved) s (.call thread op :: List.replicate 6 (.step thread)) =
      some (s', [.called thread op, .claimedTail thread s.tail,
        .read thread s.tail (s.slots (getSlot capacity s.tail)).data,
        .destroyed (getSlot capacity s.tail) (s.slots (getSlot capacity s.tail)).object] ++
          attempt.served thread) := by
  obtain ⟨change, entry⟩ := entry_of_attempt moved manner
  have called := call_eq capacity moved op idle
  rw [entry] at called
  obtain ⟨s', taken, _⟩ := execute_take moved
    (State.setPc_pc_self s thread (.testFull attempt change s.tail 0)) full
  rw [served_next] at taken
  have run := execute_cons called (execute_cons (load_eq change) taken)
  exact ⟨s', run⟩

/-- Where it has not, an attempt gives up, and nothing has changed. -/
theorem attempt_empty (idle : s.pc thread = .idle) (manner : op.manner = .attempt attempt)
    (pending : fullTurn capacity s.tail ≠ (s.slots (getSlot capacity s.tail)).turn) :
    execute (system capacity moved) s (.call thread op :: List.replicate 3 (.step thread)) =
      some (s, [.called thread op, .returned thread (attempt.giveUp 0)]) := by
  obtain ⟨change, entry⟩ := entry_of_attempt moved manner
  have called := call_eq capacity moved op idle
  rw [entry] at called
  have gaveUp := execute_giveUp moved
    (State.setPc_pc_self s thread (.testFull attempt change s.tail 0)) pending
  rw [State.setPc_setPc, setPc_of_pc idle] at gaveUp
  exact execute_cons called (execute_cons (load_eq change) gaveUp)

/-- A ticket of the tail is claimed unseen, or by an exchange of the counter. -/
theorem claims_of_claimedTail {next : State Thread Element} {events : List (Event Thread Element)}
    {ticket : UInt64} (step : advance capacity s thread (s.pc thread) = some (next, events))
    (claims : .claimedTail thread ticket ∈ events) :
    (∃ change, s.pc thread = .fetchTail change) ∨
      ∃ attempt change count, s.pc thread = .casTail attempt change ticket count := by
  cases advances_of_advance step with
  | @fetchTail change pc => exact Or.inl ⟨change, pc⟩
  | @winTail attempt change count pc =>
    cases List.mem_singleton.mp claims
    exact Or.inr ⟨attempt, change, count, pc⟩
  | fetchHead =>
    have rest := (List.mem_cons.mp claims).resolve_left fun other => by cases other
    obtain ⟨value, same⟩ := returned_of_pushNext rest
    cases same
  | publish =>
    obtain ⟨value, same⟩ := returned_of_pushNext claims
    cases same
  | release =>
    obtain ⟨value, same⟩ := returned_of_popNext claims
    cases same
  | winHead | giveUpHead | construct | giveUpTail | read | destroy =>
    cases List.mem_singleton.mp claims
  | _ => cases claims

end Alone

namespace Throwing

/-! ### Lost tickets -/

section Lost

variable {epoch : Thread → Nat} {s next : State Thread Element} {m : State (Thread × Nat) Element}
  {trace events : List (Event Thread Element)}
  {trace' : List (MPMCQueue.Event (Thread × Nat) Element)} {thread other : Thread}
  {ticket : UInt64}

/-- The ticket belongs to a call that has thrown: it is the one of the element that was not
constructed, or one of those the call would have come to afterwards. -/
def Lost (trace : List (Event Thread Element)) (ticket : UInt64) : Prop :=
  ∃ thread first count, .threw thread first count ∈ trace ∧ first ≤ ticket ∧
    ticket.toNat < first.toNat + count

theorem Lost.append (lost : Lost trace ticket) (events : List (Event Thread Element)) :
    Lost (trace ++ events) ticket := by
  obtain ⟨thread, first, count, member, rest⟩ := lost
  exact ⟨thread, first, count, List.mem_append_left _ member, rest⟩

/-- A stopped incarnation still holds a lost ticket. -/
theorem held_of_lost (mirrors : Mirrors capacity epoch s trace m) (lost : Lost trace ticket) :
    ∃ thread past, past < epoch thread ∧ (m.pc (thread, past)).Holds .head ticket.toNat := by
  obtain ⟨thread, first, count, member, low, high⟩ := lost
  obtain ⟨past, earlier, write, after, pc, rfl⟩ := mirrors.threw thread first count member
  refine ⟨thread, past, earlier, ticket.toNat_lt, first.toNat, after.left + 1, ?_,
    UInt64.le_iff_toNat_le.mp low, high⟩
  rw [pc]
  rfl

/-- The slot of a lost ticket does not get beyond the turn of its producer. -/
theorem turn_le_of_lost (mirrors : Mirrors capacity epoch s trace m)
    (sound : Sound capacity m trace') (lost : Lost trace ticket) :
    (s.slots (getSlot capacity ticket)).turn.toNat ≤ 2 * (ticket.toNat / capacity.value.toNat) := by
  obtain ⟨thread, past, _, holds⟩ := held_of_lost mirrors lost
  have ahead := sound.orderly.held_ahead _ _ ⟨.head, ticket.toNat, holds, rfl⟩
  rw [pass_toNat, turn_pass_head] at ahead
  rw [← mirrors.turns]
  exact ahead

/-- A lost ticket has been claimed, and nobody but a stopped incarnation holds it. -/
theorem lt_head_of_lost (mirrors : Mirrors capacity epoch s trace m)
    (sound : Sound capacity m trace') (lost : Lost trace ticket) : ticket < s.head := by
  obtain ⟨thread, past, _, holds⟩ := held_of_lost mirrors lost
  have claimed := lt_count_of_holds sound.orderly holds
  rw [State.count, mirrors.head] at claimed
  exact UInt64.lt_iff_toNat_lt.mpr claimed

theorem not_holds_of_lost (mirrors : Mirrors capacity epoch s trace m)
    (sound : Sound capacity m trace') (lost : Lost trace ticket) :
    ¬ (s.pc other).Holds .head ticket.toNat := by
  intro holds
  obtain ⟨thread, past, earlier, held⟩ := held_of_lost mirrors lost
  rw [← mirrors.pc] at holds
  cases sound.orderly.held_once _ _ _ ⟨.head, ticket.toNat, holds, rfl⟩
    ⟨.head, ticket.toNat, held, rfl⟩
  exact absurd earlier (Nat.lt_irrefl _)

/-! ### Waiting behind a lost ticket -/

/-- The ticket for which a thread waits. -/
def awaited : Pc Element → Option (Side × UInt64)
  | .awaitFree ticket _ _ => some (.head, ticket)
  | .awaitFull ticket _ => some (.tail, ticket)
  | _ => none

/-- The thread waits for the slot of a ticket, to pop that ticket or to use a later one. -/
def Blocked (capacity : Capacity) (ticket : UInt64) (pc : Pc Element) : Prop :=
  ∃ side i, awaited pc = some (side, i) ∧ getSlot capacity i = getSlot capacity ticket ∧
    ticket ≤ i

/-- The turn for which it waits is not that of the slot. -/
theorem mismatch_of_blocked (mirrors : Mirrors capacity epoch s trace m)
    (sound : Sound capacity m trace') (few : FewTickets trace') (lost : Lost trace ticket)
    (blocked : Blocked capacity ticket (s.pc other)) :
    (∃ i write rest, s.pc other = .awaitFree i write rest ∧
      freeTurn capacity i ≠ (s.slots (getSlot capacity i)).turn) ∨
    ∃ i change, s.pc other = .awaitFull i change ∧
      fullTurn capacity i ≠ (s.slots (getSlot capacity i)).turn := by
  obtain ⟨side, i, awaits, place, late⟩ := blocked
  have turn := turn_le_of_lost mirrors sound lost
  have laps : ticket.toNat / capacity.value.toNat ≤ i.toNat / capacity.value.toNat :=
    Nat.div_le_div_right (UInt64.le_iff_toNat_le.mp late)
  have small {side : Side} (holds : (s.pc other).Holds side i.toNat) : i.toNat < 2 ^ 63 := by
    rw [← mirrors.pc] at holds
    exact lt_trans (lt_count_of_holds sound.orderly holds) (sound.count_lt few side)
  cases pc : s.pc other <;> rw [pc] at awaits <;> cases awaits
  case awaitFree write rest =>
    refine Or.inl ⟨i, write, rest, rfl, fun same => ?_⟩
    have holds : (s.pc other).Holds .head i.toNat := by
      rw [pc]
      exact Holds.of_held rfl i.toNat_lt
    have even := toNat_freeTurn capacity (small holds)
    rw [same, place] at even
    have lap : i.toNat / capacity.value.toNat = ticket.toNat / capacity.value.toNat := by omega
    cases ticket_ext capacity place lap
    exact not_holds_of_lost mirrors sound lost holds
  case awaitFull change =>
    refine Or.inr ⟨i, change, rfl, fun same => ?_⟩
    have holds : (s.pc other).Holds .tail i.toNat := by
      rw [pc]
      exact Holds.of_held rfl i.toNat_lt
    have odd := toNat_fullTurn capacity (small holds)
    rw [same, place] at odd
    omega

/-! ### Runs -/

theorem seen_of_plain (named : trace'.map (Event.rename Prod.fst) = plain trace)
    {event : MPMCQueue.Event Thread Element} :
    .seen event ∈ trace ↔ ∃ event' ∈ trace', event'.rename Prod.fst = event := by
  rw [← mem_plain, ← named, List.mem_map]

/-- Whoever stands between a construction and its publication is a present incarnation. -/
theorem publish_of_mirrors (mirrors : Mirrors capacity epoch s trace m)
    {incarnation : Thread × Nat} {after : AfterPush Element}
    (pc : m.pc incarnation = .publish ticket after) :
    s.pc incarnation.1 = .publish ticket after := by
  obtain ⟨thread, present⟩ := incarnation
  rcases Nat.lt_trichotomy present (epoch thread) with before | rfl | later
  · obtain ⟨first, write, after', stopped⟩ := mirrors.past thread present before
    rw [stopped] at pc
    cases pc
  · rw [← mirrors.pc]
    exact pc
  · rw [mirrors.fresh thread present later] at pc
    cases pc

/-- A published slot is not one in which an incarnation has stopped. -/
theorem slot_of_odd (mirrors : Mirrors capacity epoch s trace m) (sound : Sound capacity m trace')
    {index : UInt64} {lap : Nat} (odd : (m.slots index).turn.toNat = 2 * lap + 1) :
    m.slots index = s.slots index := by
  refine (mirrors.slots index).resolve_right ?_
  rintro ⟨other, first, count, stalled, place⟩
  obtain ⟨past, _, inside⟩ := stalled.window
  have even := sound.orderly.inside_good _ _ ⟨_, _, inside, rfl⟩
  rw [pass_toNat, place, turn_pass_head] at even
  exact absurd (odd.symm.trans even) (by omega)

variable [DecidableEq Thread] {moved : Element → Element} {bytes : UInt64 → Element}

/-- What a run that mirrors the queue without exceptions has to show. -/
theorem sound_of_reaches
    (run : Reaches (system capacity moved) (start bytes) s trace) (few : FewTickets (plain trace)) :
    ∃ epoch m trace', Mirrors capacity epoch s trace m ∧ Sound capacity m trace' ∧
      FewTickets trace' ∧ Reaches (MPMCQueue.system capacity moved) (start bytes) m trace' ∧
      trace'.map (Event.rename Prod.fst) = plain trace := by
  obtain ⟨epoch, m, trace', run', named, mirrors⟩ := mirrored_of_reaches run few
  have few' : FewTickets trace' := by
    intro side
    rw [← claims_rename Prod.fst side, named]
    exact few side
  exact ⟨epoch, m, trace', mirrors, MPMCQueue.sound_of_reaches run' few', few', run', named⟩

theorem advance_of_blocked
    (run : Reaches (system capacity moved) (start bytes) s trace) (few : FewTickets (plain trace))
    (lost : Lost trace ticket) (blocked : Blocked capacity ticket (s.pc other)) :
    advance capacity s other (s.pc other) = some (s, []) := by
  obtain ⟨epoch, m, trace', mirrors, sound, few', _, _⟩ := sound_of_reaches run few
  rcases mismatch_of_blocked mirrors sound few' lost blocked with ⟨i, write, rest, pc, mismatch⟩ |
    ⟨i, change, pc, mismatch⟩
  · rw [pc]
    exact if_neg mismatch
  · rw [pc]
    exact if_neg mismatch

theorem not_blocked_idle : ¬ Blocked capacity ticket (.idle : Pc Element) := by
  rintro ⟨side, i, awaits, _⟩
  cases awaits

theorem not_blocked_construct {first : UInt64} {write : Element → Element}
    {after : AfterPush Element} : ¬ Blocked capacity ticket (.construct first write after) := by
  rintro ⟨side, i, awaits, _⟩
  cases awaits

/-- A thread that waits behind a lost ticket waits for ever. -/
theorem blocked_forever
    (run : Reaches (system capacity moved) (start bytes) s trace) (lost : Lost trace ticket)
    (blocked : Blocked capacity ticket (s.pc other)) {s' : State Thread Element}
    {later : List (Event Thread Element)} (onward : Reaches (system capacity moved) s s' later)
    (few : FewTickets (plain (trace ++ later))) :
    s'.pc other = s.pc other ∧ ∀ value, .seen (.returned other value) ∉ later := by
  refine onward.invariant (fun s' later => FewTickets (plain (trace ++ later)) →
    s'.pc other = s.pc other ∧ ∀ value, .seen (.returned other value) ∉ later)
    (fun _ => ⟨rfl, fun _ => List.not_mem_nil⟩) ?_ few
  intro middle later action next events onward inductionHypothesis step few
  rw [← List.append_assoc, plain_append] at few
  obtain ⟨samePc, silent⟩ := inductionHypothesis few.of_append
  have blocked' : Blocked capacity ticket (middle.pc other) := samePc ▸ blocked
  suffices next.pc other = middle.pc other ∧
      ∀ value, .seen (.returned other value) ∉ events by
    refine ⟨this.1.trans samePc, fun value member => ?_⟩
    rcases List.mem_append.mp member with old | new
    · exact silent value old
    · exact this.2 value new
  rcases system_cases step with ⟨action', events', step', rfl⟩ | ⟨thread, left, first, write,
    after, pc, rfl, rfl⟩
  · rcases MPMCQueue.system_cases step' with ⟨thread, op, idle, rfl, rfl⟩ | ⟨thread, advanced⟩
    · have different : other ≠ thread := by
        rintro rfl
        rw [idle] at blocked'
        exact not_blocked_idle blocked'
      refine ⟨State.setPc_pc_other _ _ _ different, fun value member => ?_⟩
      cases List.mem_singleton.mp member
    · by_cases this : other = thread
      · subst this
        rw [advance_of_blocked (run.trans onward) few.of_append (lost.append later) blocked']
          at advanced
        cases advanced
        exact ⟨rfl, fun _ => List.not_mem_nil⟩
      · refine ⟨pc_advance_other advanced this, fun value member => ?_⟩
        obtain ⟨event, member', same⟩ := List.mem_map.mp member
        cases same
        exact this (Option.some.inj (inside_of_advance advanced _ member'))
  · have different : other ≠ thread := by
      rintro rfl
      rw [pc] at blocked'
      exact not_blocked_construct blocked'
    refine ⟨State.setPc_pc_other _ _ _ different, fun value member => ?_⟩
    cases List.mem_singleton.mp member

/-! ### Attempts at a lost ticket -/

/-- The element of a lost ticket has not been published. -/
theorem pending_of_lost
    (run : Reaches (system capacity moved) (start bytes) s trace) (few : FewTickets (plain trace))
    (lost : Lost trace ticket) :
    fullTurn capacity ticket ≠ (s.slots (getSlot capacity ticket)).turn := by
  intro same
  obtain ⟨epoch, m, trace', mirrors, sound, few', _, _⟩ := sound_of_reaches run few
  have turn := turn_le_of_lost mirrors sound lost
  have small : ticket.toNat < 2 ^ 63 := by
    obtain ⟨thread, past, _, holds⟩ := held_of_lost mirrors lost
    exact lt_trans (lt_count_of_holds sound.orderly holds) (sound.count_lt few' .head)
  have odd := toNat_fullTurn capacity small
  rw [same] at odd
  omega

/-- Only an operation that waits claims it. -/
theorem fetchTail_of_claims
    (run : Reaches (system capacity moved) (start bytes) s trace) (few : FewTickets (plain trace))
    (lost : Lost trace ticket)
    (step : system capacity moved s (.act (.step thread)) = some (next, events))
    (claims : .seen (.claimedTail thread ticket) ∈ events) :
    ∃ change, s.pc thread = .fetchTail change := by
  obtain ⟨epoch, m, trace', mirrors, sound, _, _, _⟩ := sound_of_reaches run few
  have turn := turn_le_of_lost mirrors sound lost
  obtain ⟨⟨next', events'⟩, advanced, same⟩ := Option.map_eq_some_iff.mp step
  cases same
  obtain ⟨event, member, same⟩ := List.mem_map.mp claims
  cases same
  refine (claims_of_claimedTail advanced member).resolve_right ?_
  rintro ⟨attempt, change, count, pc⟩
  -- the exchange comes after a match, and the turn has not been there
  have matched := (sound.looked (thread, epoch thread)).matched .tail ticket
    (by rw [mirrors.pc, pc]; rfl)
  rw [turn_pass_tail, mirrors.turns] at matched
  omega

/-! ### The other elements -/

/-- A ticket of which something tells a use has been claimed. -/
theorem lt_count_of_uses (run : Reaches (MPMCQueue.system capacity moved) (start bytes) m trace')
    (few : FewTickets trace') {event : MPMCQueue.Event (Thread × Nat) Element}
    {user : Thread × Nat} {side : Side} (member : event ∈ trace')
    (uses : event.uses = some (user, side, ticket)) : ticket.toNat < m.count side := by
  obtain ⟨before, after, split⟩ := List.append_of_mem member
  have claims : Claimed user side ticket.toNat trace' := by
    rw [split]
    exact (claimed_of_uses run few split uses).append
  obtain ⟨claim, member', _, among⟩ := claims
  have counted : ticket.toNat ∈ MPMCQueue.claims side trace' :=
    List.mem_flatMap.mpr ⟨claim, member', among⟩
  rw [(MPMCQueue.sound_of_reaches run few).claimed side, List.mem_range] at counted
  exact counted

/-- An element whose push is complete is in its slot, published, until it is read. -/
theorem published_of_constructed
    (run : Reaches (system capacity moved) (start bytes) s trace) (few : FewTickets (plain trace))
    {producer : Thread} {element : Element}
    (constructed : .seen (.constructed producer ticket element) ∈ trace)
    (complete : ∀ thread after, s.pc thread ≠ .publish ticket after) :
    (∃ consumer, .seen (.read consumer ticket element) ∈ trace) ∨
      (s.slots (getSlot capacity ticket)).turn = fullTurn capacity ticket ∧
      (s.slots (getSlot capacity ticket)).data = element ∧
      (s.slots (getSlot capacity ticket)).object = some ticket := by
  obtain ⟨epoch, m, trace', mirrors, sound, few', run', named⟩ := sound_of_reaches run few
  obtain ⟨event, member, same⟩ := (seen_of_plain named).mp constructed
  cases event <;> cases same
  rename_i incarnation
  have small := lt_trans (lt_count_of_uses run' few' member rfl) (sound.count_lt few' .head)
  obtain ⟨stage, here⟩ := exists_stage capacity m (getSlot capacity ticket)
  obtain ⟨lap, phase, told, fits⟩ := tended_of_reaches run' few' _ _ here
  obtain ⟨before, after, split⟩ := List.append_of_mem member
  rw [split, story_split rfl] at told
  rcases told.read_of_constructed rfl with full | ⟨consumer, read⟩
  · subst full
    obtain ⟨_, lapOf⟩ := told.ticket_of_full
    cases stage with
    | outside =>
      obtain ⟨odd, object, data⟩ := fits
      rw [← slot_of_odd mirrors sound odd]
      refine Or.inr ⟨UInt64.toNat_inj.mp ?_, data, object⟩
      rw [odd, toNat_fullTurn capacity small, lapOf]
    | constructed =>
      exfalso
      rcases here with ⟨publisher, other, tends, place⟩ | ⟨outside, _⟩
      · obtain ⟨after', pc⟩ : ∃ after', m.pc publisher = .publish other after' := by
          cases pc : m.pc publisher <;> rw [pc] at tends <;> cases tends
          exact ⟨_, rfl⟩
        have good := sound.orderly.inside_good publisher (pass capacity .head other.toNat)
          ⟨.head, other.toNat, by rw [pc]; rfl, rfl⟩
        rw [pass_toNat, place, turn_pass_head] at good
        have turn : (m.slots (getSlot capacity ticket)).turn.toNat = 2 * lap := fits.1
        have lap' : other.toNat / capacity.value.toNat = ticket.toNat / capacity.value.toNat := by
          have same : 2 * lap = 2 * (other.toNat / capacity.value.toNat) := turn.symm.trans good
          omega
        cases ticket_ext capacity place lap'
        exact complete _ _ (publish_of_mirrors mirrors pc)
      · cases outside
    | used => exact absurd fits id
    | destroyed => exact absurd fits id
  · refine Or.inl ⟨consumer.1, (seen_of_plain named).mpr
      ⟨.read consumer ticket element, ?_, rfl⟩⟩
    rw [split]
    exact List.mem_append_right _ (List.mem_cons_of_mem _ (mem_of_mem_story read))

/-- Where the tail has passed an element that has not been read, a consumer has come for it. -/
theorem consumer_of_published
    (run : Reaches (system capacity moved) (start bytes) s trace) (few : FewTickets (plain trace))
    (passed : ticket < s.tail)
    (full : (s.slots (getSlot capacity ticket)).turn = fullTurn capacity ticket) :
    ∃ consumer, (s.pc consumer).Holds .tail ticket.toNat := by
  obtain ⟨epoch, m, trace', mirrors, sound, few', _, _⟩ := sound_of_reaches run few
  have claimed : ticket.toNat < m.count .tail := by
    rw [State.count, mirrors.tail]
    exact UInt64.lt_iff_toNat_lt.mp passed
  rcases sound.orderly.issued_kept (pass capacity .tail ticket.toNat)
    ⟨.tail, ticket.toNat, claimed, rfl⟩ with beyond | ⟨incarnation, side, number, holds, same⟩
  · have odd := toNat_fullTurn capacity (lt_trans claimed (sound.count_lt few' .tail))
    have turn : (m.slots (pass capacity .tail ticket.toNat).place).turn.toNat =
        2 * (ticket.toNat / capacity.value.toNat) + 1 := by
      rw [pass_toNat, mirrors.turns, full, odd]
    exact absurd (beyond.trans_eq turn) (Nat.lt_irrefl _)
  · obtain ⟨rfl, rfl⟩ := pass_injective ticket.toNat_lt holds.1 same
    obtain ⟨thread, present⟩ := incarnation
    rcases Nat.lt_trichotomy present (epoch thread) with before | rfl | later
    · obtain ⟨first, write, after, stopped⟩ := mirrors.past thread present before
      rw [stopped] at holds
      obtain ⟨_, _, _, held, _⟩ := holds
      cases held
    · rw [mirrors.pc] at holds
      exact ⟨thread, holds⟩
    · rw [mirrors.fresh thread present later] at holds
      exact absurd holds (not_holds_of_none rfl)

/-- An element that has been read lies behind the tail. -/
theorem lt_tail_of_read
    (run : Reaches (system capacity moved) (start bytes) s trace) (few : FewTickets (plain trace))
    {consumer : Thread} {element : Element}
    (read : .seen (.read consumer ticket element) ∈ trace) : ticket < s.tail := by
  obtain ⟨epoch, m, trace', mirrors, sound, few', run', named⟩ := sound_of_reaches run few
  obtain ⟨event, member, same⟩ := (seen_of_plain named).mp read
  cases event <;> cases same
  have claimed := lt_count_of_uses run' few' member rfl
  rw [State.count, mirrors.tail] at claimed
  exact UInt64.lt_iff_toNat_lt.mpr claimed

/-- What the queue does on its own it does where constructors may throw as well. -/
theorem execute_act {schedule : List (MPMCQueue.Action Thread Element)}
    {events : List (MPMCQueue.Event Thread Element)}
    (executed : execute (MPMCQueue.system capacity moved) s schedule = some (next, events)) :
    execute (system capacity moved) s (schedule.map .act) = some (next, events.map .seen) := by
  induction schedule generalizing s events with
  | nil =>
    cases executed
    rfl
  | cons action rest inductionHypothesis =>
    obtain ⟨middle, told, later, step, onward, rfl⟩ := cons_of_execute executed
    have lifted : system capacity moved s (.act action) = some (middle, told.map .seen) := by
      rw [system, step]
      rfl
    rw [List.map_append, List.map_cons]
    exact execute_cons lifted (inductionHypothesis onward)

end Lost

/-! ### A queue after exceptions -/

section Main

variable [DecidableEq Thread]

/-- What becomes of a lost ticket. -/
structure Abandoned (capacity : Capacity) (moved : Element → Element) (s : State Thread Element)
    (trace : List (Event Thread Element)) (ticket : UInt64) : Prop where
  /-- It stays claimed, and is not published. -/
  claimed : ticket < s.head
  unpublished : fullTurn capacity ticket ≠ (s.slots (getSlot capacity ticket)).turn
  /-- Only a consumer that waits takes it from the tail. -/
  waiting : ∀ thread next events,
    system capacity moved s (.act (.step thread)) = some (next, events) →
    .seen (.claimedTail thread ticket) ∈ events → ∃ change, s.pc thread = .fetchTail change
  /-- Until one has, consumers that do not wait give up and change nothing. -/
  givesUp : s.tail = ticket → ∀ thread op attempt, s.pc thread = .idle →
    op.manner = .attempt attempt →
    execute (system capacity moved) s
        ((.call thread op :: List.replicate 3 (.step thread)).map .act) =
      some (s, [.seen (.called thread op), .seen (.returned thread (attempt.giveUp 0))])
  /-- Whoever waits for it, or behind it at its slot, waits for ever. -/
  blocked : ∀ thread, Blocked capacity ticket (s.pc thread) → ∀ s' later,
    Reaches (system capacity moved) s s' later → FewTickets (plain (trace ++ later)) →
    s'.pc thread = s.pc thread ∧ ∀ value, .seen (.returned thread value) ∉ later

/-- What becomes of an element whose push is complete. -/
structure Delivers (capacity : Capacity) (moved : Element → Element) (s : State Thread Element)
    (trace : List (Event Thread Element)) (ticket : UInt64) (element : Element) : Prop where
  /-- It stays in its slot until the tail comes to it. -/
  kept : s.tail ≤ ticket → (s.slots (getSlot capacity ticket)).turn = fullTurn capacity ticket ∧
    (s.slots (getSlot capacity ticket)).data = element
  /-- Then every consumer that does not wait takes it. -/
  taken : s.tail = ticket → ∀ thread op attempt, s.pc thread = .idle →
    op.manner = .attempt attempt →
    ∃ s', execute (system capacity moved) s
        ((.call thread op :: List.replicate 6 (.step thread)).map .act) =
      some (s', ([.called thread op, .claimedTail thread ticket, .read thread ticket element,
        .destroyed (getSlot capacity ticket) (some ticket)] ++ attempt.served thread).map .seen)
  /-- Behind the tail it has been read, or the consumer that has its ticket finds it. -/
  passed : ticket < s.tail → (∃ consumer, .seen (.read consumer ticket element) ∈ trace) ∨
    (∃ consumer, (s.pc consumer).Holds .tail ticket.toNat) ∧
      (s.slots (getSlot capacity ticket)).turn = fullTurn capacity ticket ∧
      (s.slots (getSlot capacity ticket)).data = element

variable {moved : Element → Element} {bytes : UInt64 → Element} {s : State Thread Element}
  {trace : List (Event Thread Element)} {ticket : UInt64} {element : Element}

theorem abandoned_of_lost
    (run : Reaches (system capacity moved) (start bytes) s trace) (few : FewTickets (plain trace))
    (lost : Lost trace ticket) : Abandoned capacity moved s trace ticket where
  claimed := by
    obtain ⟨epoch, m, trace', mirrors, sound, _⟩ := sound_of_reaches run few
    exact lt_head_of_lost mirrors sound lost
  unpublished := pending_of_lost run few lost
  waiting _ _ _ step claims := fetchTail_of_claims run few lost step claims
  givesUp tail _ _ _ idle manner := by
    subst tail
    exact execute_act (attempt_empty idle manner (pending_of_lost run few lost))
  blocked _ waits _ _ onward few' := blocked_forever run lost waits onward few'

theorem delivers_of_constructed
    (run : Reaches (system capacity moved) (start bytes) s trace) (few : FewTickets (plain trace))
    {producer : Thread} (constructed : .seen (.constructed producer ticket element) ∈ trace)
    (complete : ∀ thread after, s.pc thread ≠ .publish ticket after) :
    Delivers capacity moved s trace ticket element := by
  have published := published_of_constructed run few constructed complete
  have unread (ahead : s.tail ≤ ticket) :
      ¬ ∃ consumer, .seen (.read consumer ticket element) ∈ trace := by
    rintro ⟨consumer, read⟩
    exact absurd (lt_tail_of_read run few read) (UInt64.not_lt.mpr ahead)
  refine ⟨fun ahead => ?_, fun tail thread op attempt idle manner => ?_, fun passed => ?_⟩
  · obtain ⟨full, data, _⟩ := published.resolve_left (unread ahead)
    exact ⟨full, data⟩
  · subst tail
    obtain ⟨full, data, object⟩ := published.resolve_left (unread (UInt64.le_refl _))
    obtain ⟨s', executed⟩ := attempt_full moved idle manner full.symm
    rw [data, object] at executed
    exact ⟨s', execute_act executed⟩
  · rcases published with read | ⟨full, data, _⟩
    · exact Or.inl read
    · exact Or.inr ⟨consumer_of_published run few passed full, full, data⟩

/-- A call that throws loses its tickets for good, and the queue goes on delivering every other
element. -/
theorem delivers_after_throws
    (run : Reaches (system capacity moved) (start bytes) s trace) (few : FewTickets (plain trace)) :
    (∀ ticket, Lost trace ticket → Abandoned capacity moved s trace ticket) ∧
    ∀ producer ticket element, .seen (.constructed producer ticket element) ∈ trace →
      (∀ thread after, s.pc thread ≠ .publish ticket after) →
      Delivers capacity moved s trace ticket element :=
  ⟨fun _ lost => abandoned_of_lost run few lost,
    fun _ _ _ constructed complete => delivers_of_constructed run few constructed complete⟩

end Main

section Example

/-- A constructor throws, and the push of another thread completes after that. -/
def overThrown : List (Action Bool Nat) :=
  [.act (.call false (.emplace 7)), .act (.step false), .act (.step false), .throws false 0] ++
    [.act (.call true (.emplace 8)), .act (.step true), .act (.step true), .act (.step true),
      .act (.step true)]

def overThrew : List (Event Bool Nat) :=
  [.seen (.called false (.emplace 7)), .seen (.claimedHead false 0 1), .threw false 0 1,
    .seen (.called true (.emplace 8)), .seen (.claimedHead true 1 1),
    .seen (.constructed true 1 8), .seen (.returned true .unit)]

theorem executed_overThrown : ∃ s,
    execute (system twoSlots id) (start fun _ => 0) overThrown = some (s, overThrew) ∧
      s.pc false = .idle ∧ s.pc true = .idle ∧ s.tail = 0 := by
  have traced : (execute (system twoSlots id) (start fun _ => 0) overThrown).map
      (fun reached => (reached.2, reached.1.pc false, reached.1.pc true, reached.1.tail)) =
        some (overThrew, .idle, .idle, 0) := rfl
  obtain ⟨⟨s, trace⟩, executed, same⟩ := Option.map_eq_some_iff.mp traced
  obtain ⟨rfl, same⟩ := Prod.mk.inj same
  obtain ⟨idle, same⟩ := Prod.mk.inj same
  obtain ⟨idle', tail⟩ := Prod.mk.inj same
  exact ⟨s, executed, idle, idle', tail⟩

theorem few_overThrew : FewTickets (plain overThrew) := by
  intro side
  cases side <;> decide

theorem lost_overThrew : Lost overThrew 0 :=
  ⟨false, 0, 1, List.mem_cons_of_mem _ (List.mem_cons_of_mem _ List.mem_cons_self), by decide,
    by decide⟩

/-- No `try_pop` returns the element that has been pushed, and a thread that pops waits for the
ticket of the call that has thrown. -/
theorem not_usable_overThrown : ∃ s,
    execute (system twoSlots id) (start fun _ => 0) overThrown = some (s, overThrew) ∧
    execute (system twoSlots id) s
        ((.call true .tryPop :: List.replicate 3 (.step true)).map .act) =
      some (s, [.seen (.called true .tryPop), .seen (.returned true (.bool false))]) ∧
    ∃ s', execute (system twoSlots id) s [.act (.call false .pop), .act (.step false)] =
        some (s', [.seen (.called false .pop), .seen (.claimedTail false 0)]) ∧
      ∀ last later, Reaches (system twoSlots id) s' last later →
        FewTickets (plain (overThrew ++ [.seen (.called false .pop),
          .seen (.claimedTail false 0)] ++ later)) →
        ∀ value, .seen (.returned false value) ∉ later := by
  obtain ⟨s, executed, idle, idle', tail⟩ := executed_overThrown
  have run := reaches_of_execute executed
  refine ⟨s, executed, (abandoned_of_lost run few_overThrew lost_overThrew).givesUp tail true
    .tryPop .one idle' rfl, ?_⟩
  have called : system twoSlots id s (.act (.call false .pop)) =
      some (s.setPc false (.fetchTail id), [.seen (.called false .pop)]) := by
    rw [system, call_eq _ _ _ idle]
    rfl
  have fetched : system twoSlots id (s.setPc false (.fetchTail id)) (.act (.step false)) =
      some ({ s.setPc false (.fetchTail id) with tail := s.tail + 1 }.setPc false
        (.awaitFull s.tail id), [.seen (.claimedTail false s.tail)]) := by
    rw [system, step_eq (State.setPc_pc_self _ _ _)]
    rfl
  rw [tail] at fetched
  have last (s : State Bool Nat) : execute (system twoSlots id) s [] = some (s, []) := rfl
  have popping := execute_cons called (execute_cons fetched (last _))
  refine ⟨_, popping, fun last later onward few => ?_⟩
  refine (blocked_forever (run.trans (reaches_of_execute popping)) (lost_overThrew.append _) ?_
    onward few).2
  rw [State.setPc_pc_self]
  exact ⟨.tail, 0, rfl, rfl, UInt64.le_refl _⟩

theorem delivers_after_throws_overThrown : ∃ s,
    execute (system twoSlots id) (start fun _ => 0) overThrown = some (s, overThrew) ∧
    (∀ ticket, Lost overThrew ticket → Abandoned twoSlots id s overThrew ticket) ∧
    ∀ producer ticket element, .seen (.constructed producer ticket element) ∈ overThrew →
      (∀ thread after, s.pc thread ≠ .publish ticket after) →
      Delivers twoSlots id s overThrew ticket element := by
  obtain ⟨s, executed, _⟩ := executed_overThrown
  exact ⟨s, executed, delivers_after_throws (reaches_of_execute executed) few_overThrew⟩

end Example

end Throwing

end MPMCQueue

end Sheep
