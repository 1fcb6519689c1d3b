/-
This file finds when `size` and `empty` tell the truth. The two counters are loaded
one after the other while both go on, and consumers that wait have claimed tickets
ahead of the producers. The difference is meant to be signed, but it is returned as
a `uint64_t`: where the tail is ahead of the head the size is huge, and the queue
is not empty.
-/

import Mathlib.Data.List.Induction
import Sheep.QueueAttempts
import Sheep.QueueRefusals

namespace Sheep

open Turnstile Transitions

namespace MPMCQueue

variable {Thread Element : Type}

/-! ### The two loads -/

/-- Which counter is loaded first. The language leaves the order of the operands open. -/
inductive LoadOrder
  | headFirst
  | tailFirst
deriving DecidableEq, Repr

/-- `size`, in the states in which the first and the second counter are loaded. -/
def size (order : LoadOrder) (first second : State Thread Element) : UInt64 :=
  let difference := match order with
    | .headFirst => first.head - second.tail
    | .tailFirst => second.head - first.tail
  -- `static_cast<ptrdiff_t>`, and back to the type that is returned
  difference.toInt64.toUInt64

/-- `empty`: `size()<=0`, where zero is a `uint64_t` as well. -/
def empty (order : LoadOrder) (first second : State Thread Element) : Bool :=
  decide (size order first second ≤ 0)

/-- All tickets that producers have claimed, consumers have claimed too. -/
def CaughtUp (trace : List (Event Thread Element)) : Prop :=
  ∀ ticket ∈ claims .head trace, ticket ∈ claims .tail trace

/-- Only `try_emplace` and `try_pop` have been called. -/
def TriesOnly (trace : List (Event Thread Element)) : Prop :=
  ∀ thread op, .called thread op ∈ trace → op.Tries

/-- What `size` and `empty` are to tell. -/
structure NeverAbsurd (capacity : Capacity) (order : LoadOrder)
    (first second : State Thread Element) (trace events : List (Event Thread Element)) : Prop where
  empty : CaughtUp trace → empty order first second = true
  size : TriesOnly (trace ++ events) → size order first second ≤ capacity.value

/-- What other threads may claim between the loads, so that they do. -/
def Settled (capacity : Capacity) (first : State Thread Element)
    (trace events : List (Event Thread Element)) : LoadOrder → Prop
  | .headFirst =>
      (CaughtUp trace → first.tail = first.head ∧ claims .tail events = []) ∧
        (TriesOnly (trace ++ events) →
          (claims .tail events).length ≤ first.head.toNat - first.tail.toNat)
  | .tailFirst =>
      (CaughtUp trace →
          (claims .head events).length = first.tail.toNat - first.head.toNat) ∧
        (TriesOnly (trace ++ events) →
          (claims .head events).length ≤
            capacity.value.toNat - (first.head.toNat - first.tail.toNat))

/-! ### Differences of counters -/

theorem size_headFirst (first second : State Thread Element) :
    size .headFirst first second = first.head - second.tail := rfl

theorem size_tailFirst (first second : State Thread Element) :
    size .tailFirst first second = second.head - first.tail := rfl

theorem empty_iff (order : LoadOrder) (first second : State Thread Element) :
    empty order first second = true ↔ size order first second = 0 := by
  rw [empty, decide_eq_true_iff, UInt64.le_iff_toNat_le, ← UInt64.toNat_inj]
  exact Nat.le_zero

theorem sub_eq_zero_iff (a b : UInt64) : a - b = 0 ↔ a.toNat = b.toNat := by
  rw [← UInt64.toNat_inj, UInt64.toNat_sub]
  have small := a.toNat_lt
  have small' := b.toNat_lt
  rw [show (0 : UInt64).toNat = 0 from rfl]
  omega

/-- A difference that is not negative is small, a negative one is not. -/
theorem sub_le_iff (capacity : Capacity) {a b : UInt64} (small : a.toNat < 2 ^ 63)
    (small' : b.toNat < 2 ^ 63) :
    a - b ≤ capacity.value ↔
      b.toNat ≤ a.toNat ∧ a.toNat ≤ b.toNat + capacity.value.toNat := by
  have bounded := capacity.le
  rw [UInt64.le_iff_toNat_le, UInt64.toNat_sub]
  omega

/-! ### Runs that only try -/

section Tries

variable [DecidableEq Thread] {capacity : Capacity} {moved : Element → Element}
  {bytes : UInt64 → Element} {s next : State Thread Element} {thread : Thread}
  {trace events : List (Event Thread Element)}

/-- A thread in a call has called it. -/
theorem called_of_callOf {op : Op Element} (call : callOf thread trace = some op) :
    .called thread op ∈ trace := by
  induction trace using List.reverseRecOn with
  | nil => cases call
  | append_singleton trace event inductionHypothesis =>
    rw [callOf_append, List.foldl_cons, List.foldl_nil] at call
    have before (old : callOf thread trace = some op) : .called thread op ∈ trace ++ [event] :=
      List.mem_append_left _ (inductionHypothesis old)
    cases event with
    | called other op' =>
      rw [afterEvent] at call
      split at call
      · rename_i same
        cases call
        rw [same]
        exact List.mem_append_right _ List.mem_cons_self
      · exact before call
    | returned other value =>
      rw [afterEvent] at call
      split at call
      · cases call
      · exact before call
    | _ => exact before call

/-- Where only attempts are made, threads stand at points of attempts. -/
theorem manner_of_triesOnly (run : Reaches (system capacity moved) (start bytes) s trace)
    (tries : TriesOnly trace) (busy : s.pc thread ≠ .idle) :
    (s.pc thread).manner = some .tryPush ∨ (s.pc thread).manner = some (.attempt .one) := by
  rcases inCalls_of_reaches run thread with ⟨_, idle⟩ | ⟨op, call, manner⟩
  · exact absurd idle busy
  · have allowed := tries thread op (called_of_callOf call)
    rw [manner]
    cases op with
    | tryEmplace element => exact Or.inl rfl
    | tryPop => exact Or.inr rfl
    | _ => exact absurd allowed id

/-- Consumers are behind producers, by one lap at most. -/
structure Level (capacity : Capacity) (s : State Thread Element) : Prop where
  behind : s.tail.toNat ≤ s.head.toNat
  lap : s.head.toNat ≤ s.tail.toNat + capacity.value.toNat

omit [DecidableEq Thread] in
/-- A slot that a producer has matched was left by the consumer one lap before. -/
theorem head_lt_of_matched (orderly : Orderly (s.board capacity))
    (turn : (s.slots (getSlot capacity s.head)).turn.toNat =
      (pass capacity .head s.head.toNat).turn) :
    s.head.toNat < s.tail.toNat + capacity.value.toNat := by
  by_contra far
  have bounded := s.head.toNat_lt
  have lap : capacity.value.toNat ≤ s.head.toNat := by omega
  obtain ⟨place, turns⟩ := pass_previous .tail lap
  have unclaimed : s.count .tail ≤ s.head.toNat - capacity.value.toNat := by
    rw [State.count]
    omega
  have early := turn_le_of_count_le orderly (by omega) unclaimed
  have parity : Side.tail.parity = 1 := rfl
  rw [place, turn, turn_pass_head] at early
  omega

omit [DecidableEq Thread] in
/-- A slot that a consumer has matched was left by its producer. -/
theorem tail_lt_of_matched (orderly : Orderly (s.board capacity))
    (turn : (s.slots (getSlot capacity s.tail)).turn.toNat =
      (pass capacity .tail s.tail.toNat).turn) : s.tail.toNat < s.head.toNat := by
  by_contra ahead
  have early := turn_le_of_unclaimed orderly (Nat.le_of_not_lt ahead : s.count .head ≤ _)
  rw [turn, turn_pass_tail, turn_pass_head] at early
  omega

/-- Attempts claim tickets only where they have matched the turn. -/
theorem level_advance (level : Level capacity s) (sound : Sound capacity s trace)
    (few : FewTickets (trace ++ events))
    (manner : (s.pc thread).manner = some .tryPush ∨
      (s.pc thread).manner = some (.attempt .one))
    (step : advance capacity s thread (s.pc thread) = some (next, events)) :
    Level capacity next := by
  have small := sound.small few
  have looked := sound.looked thread
  cases advances_of_advance step with
  | fetchHead pc | fetchTail pc =>
    rw [pc] at manner
    rcases manner with manner | manner <;> cases manner
  | winHead pc =>
    have less := head_lt_of_matched sound.orderly
      (good_of_matched sound.orderly looked (by rw [pc]; rfl) rfl)
    have head : (s.head + 1).toNat = s.head.toNat + 1 := toNat_add_one (small .head)
    refine ⟨?_, ?_⟩
    · show s.tail.toNat ≤ (s.head + 1).toNat
      rw [head]
      exact Nat.le_succ_of_le level.behind
    · show (s.head + 1).toNat ≤ _
      rw [head]
      exact less
  | winTail pc =>
    have less := tail_lt_of_matched sound.orderly
      (good_of_matched sound.orderly looked (by rw [pc]; rfl) rfl)
    have tail : (s.tail + 1).toNat = s.tail.toNat + 1 := toNat_add_one (small .tail)
    have lap := level.lap
    refine ⟨?_, ?_⟩
    · show (s.tail + 1).toNat ≤ s.head.toNat
      rw [tail]
      exact less
    · show s.head.toNat ≤ (s.tail + 1).toNat + _
      omega
  | _ => exact ⟨level.behind, level.lap⟩

/-- In every run that only tries, the queue is level. -/
theorem level_of_reaches (run : Reaches (system capacity moved) (start bytes) s trace)
    (few : FewTickets trace) (tries : TriesOnly trace) : Level capacity s := by
  refine run.invariant (fun s trace => FewTickets trace → TriesOnly trace → Level capacity s)
    (fun _ _ => ⟨Nat.zero_le 0, Nat.zero_le _⟩) ?_ few tries
  intro s trace action next events run inductionHypothesis step few tries
  have before : TriesOnly trace := fun thread op member =>
    tries thread op (List.mem_append_left _ member)
  have level := inductionHypothesis few.of_append before
  rcases system_cases step with ⟨thread, op, _, rfl, rfl⟩ | ⟨thread, advanced⟩
  · exact ⟨level.behind, level.lap⟩
  · refine level_advance level (sound_of_reaches run few.of_append) few
      (manner_of_triesOnly run before fun idle => ?_) advanced
    rw [idle] at advanced
    cases advanced

end Tries

/-! ### Loads of a run -/

section Loads

variable [DecidableEq Thread] {capacity : Capacity} {moved : Element → Element}
  {bytes : UInt64 → Element} {first second : State Thread Element}
  {trace events : List (Event Thread Element)}

/-- Consumers have caught up where the tail is not behind the head. -/
theorem caughtUp_iff (run : Reaches (system capacity moved) (start bytes) first trace)
    (few : FewTickets trace) : CaughtUp trace ↔ first.head.toNat ≤ first.tail.toNat := by
  have claimed := (sound_of_reaches run few).claimed
  simp only [CaughtUp, claimed, List.mem_range, State.count]
  exact ⟨fun all => Nat.le_of_not_lt fun less => lt_irrefl _ (all _ less),
    fun le ticket less => lt_of_lt_of_le less le⟩

omit [DecidableEq Thread] in
/-- What `size` and `empty` are to tell of the two numbers that are loaded. -/
theorem neverAbsurd_iff_loads {order : LoadOrder} {head tail : UInt64}
    (loaded : size order first second = head - tail) (small : head.toNat < 2 ^ 63)
    (small' : tail.toNat < 2 ^ 63) :
    NeverAbsurd capacity order first second trace events ↔
      (CaughtUp trace → head.toNat = tail.toNat) ∧ (TriesOnly (trace ++ events) →
        tail.toNat ≤ head.toNat ∧ head.toNat ≤ tail.toNat + capacity.value.toNat) := by
  rw [← sub_eq_zero_iff, ← sub_le_iff capacity small small', ← loaded, ← empty_iff]
  exact ⟨fun never => ⟨never.empty, never.size⟩, fun both => ⟨both.1, both.2⟩⟩

/-- For every run and every placement of the two loads in it, `size` and `empty` tell the truth just
when what is claimed between the loads does not spoil the difference of the counters. -/
theorem neverAbsurd_iff
    (before : Reaches (system capacity moved) (start bytes) first trace)
    (between : Reaches (system capacity moved) first second events)
    (few : FewTickets (trace ++ events)) (order : LoadOrder) :
    NeverAbsurd capacity order first second trace events ↔
      Settled capacity first trace events order := by
  have after := before.trans between
  have small (side : Side) := count_lt_of_few before few.of_append side
  have small' (side : Side) := count_lt_of_few after few side
  have moved (side : Side) := count_of_reaches before between few side
  have caughtUp := caughtUp_iff before few.of_append
  have level (tries : TriesOnly (trace ++ events)) : Level capacity first :=
    level_of_reaches before few.of_append fun thread op member =>
      tries thread op (List.mem_append_left _ member)
  cases order with
  | headFirst =>
    have tail : second.tail.toNat = first.tail.toNat + (claims .tail events).length := moved .tail
    rw [neverAbsurd_iff_loads (size_headFirst first second) (small .head) (small' .tail), tail]
    refine and_congr (imp_congr_right fun all => ?_) (imp_congr_right fun tries => ?_)
    · have ahead := caughtUp.mp all
      rw [← List.length_eq_zero_iff, ← UInt64.toNat_inj]
      omega
    · have behind := (level tries).behind
      have lap := (level tries).lap
      omega
  | tailFirst =>
    have head : second.head.toNat = first.head.toNat + (claims .head events).length := moved .head
    rw [neverAbsurd_iff_loads (size_tailFirst first second) (small' .head) (small .tail), head]
    refine and_congr (imp_congr_right fun all => ?_) (imp_congr_right fun tries => ?_)
    · have ahead := caughtUp.mp all
      omega
    · have behind := (level tries).behind
      have lap := (level tries).lap
      omega

end Loads

section Example

/-- A consumer waits for an element. -/
def waiting : List (Event Bool Nat) := [.called false .pop, .claimedTail false 0]

/-- The queue is empty, and it has the largest size there is. -/
theorem not_neverAbsurd_waiting : ∃ s,
    execute (system oneSlot id) (start fun _ => 0) [.call false .pop, .step false] =
      some (s, waiting) ∧ FewTickets waiting ∧ CaughtUp waiting ∧
    ∀ order, size order s s = maxTicket ∧ empty order s s = false ∧
      ¬ NeverAbsurd oneSlot order s s waiting [] := by
  have traced : (execute (system oneSlot id) (start fun _ => 0)
      [.call false .pop, .step false]).map (fun reached => (reached.1.head, reached.1.tail,
        reached.2)) = some (0, 1, waiting) := rfl
  obtain ⟨⟨s, trace⟩, executed, same⟩ := Option.map_eq_some_iff.mp traced
  obtain ⟨head, same⟩ := Prod.mk.inj same
  obtain ⟨tail, rfl⟩ := Prod.mk.inj same
  have caughtUp : CaughtUp waiting := fun ticket member => absurd member List.not_mem_nil
  refine ⟨s, executed, fun side => by cases side <;> decide, caughtUp, fun order => ?_⟩
  have huge : size order s s = maxTicket := by
    cases order with
    | headFirst => rw [size_headFirst, head, tail]; decide
    | tailFirst => rw [size_tailFirst, head, tail]; decide
  have full : empty order s s = false := by
    rw [empty, huge]
    decide
  refine ⟨huge, full, fun never => ?_⟩
  have told := never.empty caughtUp
  rw [full] at told
  cases told

/-- Nobody moves while an element is pushed that nobody has popped. -/
theorem neverAbsurd_iff_pushed : ∃ s trace,
    execute (system oneSlot id) (start fun _ => 0)
        (.call false (.tryEmplace 7) :: List.replicate 5 (.step false)) = some (s, trace) ∧
      ∀ order, NeverAbsurd oneSlot order s s trace [] ↔ Settled oneSlot s trace [] order := by
  have traced : (execute (system oneSlot id) (start fun _ => 0)
      (.call false (.tryEmplace 7) :: List.replicate 5 (.step false))).map (·.2) =
        some ([.called false (.tryEmplace 7), .claimedHead false 0 1, .constructed false 0 7,
          .returned false (.bool true)] : List (Event Bool Nat)) := rfl
  obtain ⟨⟨s, trace⟩, executed, same⟩ := Option.map_eq_some_iff.mp traced
  cases same
  exact ⟨s, _, executed, neverAbsurd_iff (reaches_of_execute executed) .start
    fun side => by cases side <;> decide⟩

end Example

end MPMCQueue

end Sheep
