/-
This file connects the models of whole calls of loggers with the queue of atomic steps.
There the records in the queue are a list. Here the queue shows that list from its tail
on, and calls of `emplace_with` and `try_consume_all` that are left alone do to the
queue what `log` and `poll` do to the list.
-/

import Sheep.Loggers
import Sheep.QueueContents

namespace Sheep

open MPMCQueue (Shows takenIn returned)
open Logger (FixedSizeRecord FormatToN LogLevel makeRecord)

variable {Thread File Message : Type} [DecidableEq Thread] {RecordSize : Nat}
  {QCap : MPMCQueue.Capacity} {formatToN : FormatToN Message} {thread : Thread}
  {moved : FixedSizeRecord RecordSize → FixedSizeRecord RecordSize}
  {q : MPMCQueue.State Thread (FixedSizeRecord RecordSize)}

namespace Logger

namespace Serial

/-! ### One call at a time -/

/-- The queue holds the records of the list, and nobody is in a call. -/
structure Backs (QCap : MPMCQueue.Capacity)
    (q : MPMCQueue.State Thread (FixedSizeRecord RecordSize)) (s : State File RecordSize) :
    Prop where
  idle : ∀ thread, q.pc thread = .idle
  consumed : q.tail.toNat = s.consumed
  shows : Shows QCap q (s.queue.map some)

variable {s : State File RecordSize}

omit [DecidableEq Thread] in
theorem backs_constructed (QCap : MPMCQueue.Capacity)
    (bytes : UInt64 → FixedSizeRecord RecordSize) (logLevel : LogLevel) (stdout : File) :
    Backs QCap (MPMCQueue.start bytes : MPMCQueue.State Thread _) (constructed logLevel stdout) :=
  ⟨fun _ => rfl, rfl, MPMCQueue.shows_start QCap bytes⟩

omit [DecidableEq Thread] in
theorem written_map_some (records : List (FixedSizeRecord RecordSize)) :
    MPMCQueue.written (records.map some) = records := by
  induction records with
  | nil => rfl
  | cons record rest inductionHypothesis =>
    rw [List.map_cons, MPMCQueue.written, inductionHypothesis]

/-- A call of `log` that passes the level check is a call of `emplace_with`. -/
theorem Backs.log (backs : Backs QCap q s) (few : q.head.toNat + QCap.value.toNat < 2 ^ 63)
    {level : LogLevel} (passes : s.logLevel.value ≤ level.value)
    (room : s.queue.length < QCap.value.toNat) (thread : Thread) (message : Message) :
    ∃ next slot outcome, Transitions.execute (MPMCQueue.system QCap moved) q
        (.call thread (.emplaceWith (makeRecord formatToN message)) ::
          List.replicate 4 (.step thread)) =
        some (next, [.called thread (.emplaceWith (makeRecord formatToN message)),
          .claimedHead thread q.head 1,
          .constructed thread q.head (makeRecord formatToN message slot),
          .returned thread .unit]) ∧
      s.log QCap formatToN level message slot = some outcome ∧ Backs QCap next outcome.1 := by
  obtain ⟨next, slot, executed, pcs, tail, shows⟩ :=
    backs.shows.emplaceWith few (by rwa [List.length_map]) (backs.idle thread)
      (makeRecord formatToN message)
  refine ⟨next, slot, _, executed, by rw [State.log, if_pos passes, if_pos room], ?_, ?_, ?_⟩
  · exact fun other => by rw [pcs, backs.idle]
  · rw [tail]
    exact backs.consumed
  · show Shows QCap next ((s.queue ++ [_]).map some)
    rw [List.map_append]
    exact shows

/-- The queue hands the functor of `poll` the records of the list, in order. -/
theorem Backs.tryConsumeAll (backs : Backs QCap q s)
    (few : q.head.toNat + QCap.value.toNat < 2 ^ 63) (behind : Nat → Nat → UInt8)
    (thread : Thread) (f : FixedSizeRecord RecordSize → FixedSizeRecord RecordSize) :
    ∃ next events, Transitions.execute (MPMCQueue.system QCap moved) q
        (.call thread (.tryConsumeAll f) ::
          List.replicate (5 * s.queue.length + 3) (.step thread)) =
        some (next, .called thread (.tryConsumeAll f) :: events) ∧
      takenIn events = s.queue.zipIdx s.consumed ∧
      returned events = some (.count s.queue.length) ∧
      Backs QCap next (s.tryConsumeAll behind) := by
  obtain ⟨next, events, executed, pcs, tail, shows, taken, returns⟩ :=
    backs.shows.tryConsumeAll few (backs.idle thread) f
  rw [written_map_some] at executed tail shows taken returns
  refine ⟨next, events, executed, backs.consumed ▸ taken, returns, ?_, ?_, ?_⟩
  · exact fun other => by rw [pcs, backs.idle]
  · rw [tail, backs.consumed]
    rfl
  · rw [List.drop_of_length_le (Nat.le_of_eq (List.length_map some))] at shows
    exact shows

end Serial

end Logger

namespace Loggers

/-! ### Calls under way -/

/-- What the queue holds at a place. -/
def Place.record : Place Message RecordSize → Option (FixedSizeRecord RecordSize)
  | .claimed _ => none
  | .written record => some record

omit [DecidableEq Thread] in
theorem written_map_record (queue : List (Place Message RecordSize)) :
    MPMCQueue.written (queue.map Place.record) = published queue := by
  induction queue with
  | nil => rfl
  | cons place rest inductionHypothesis =>
    cases place with
    | claimed message => rfl
    | written record =>
      rw [List.map_cons, Place.record, MPMCQueue.written, published, inductionHypothesis]

/-- The queue has the places of the list, and at each one that has been claimed a thread waits to
write its record. -/
structure Backs (QCap : MPMCQueue.Capacity) (formatToN : FormatToN Message)
    (q : MPMCQueue.State Thread (FixedSizeRecord RecordSize))
    (object : LoggerImpl File Message RecordSize) : Prop where
  consumed : q.tail.toNat = object.consumed
  shows : Shows QCap q (object.queue.map Place.record)
  claimed : ∀ place message, object.queue[place]? = some (.claimed message) → ∃ thread,
    q.pc thread = .awaitFree (q.tail + UInt64.ofNat place) (makeRecord formatToN message) []

variable {object : LoggerImpl File Message RecordSize}

omit [DecidableEq Thread] in
theorem Backs.length (backs : Backs QCap formatToN q object) :
    q.head.toNat = q.tail.toNat + object.queue.length := by
  rw [backs.shows.head, List.length_map]

omit [DecidableEq Thread] in
theorem backs_start {Index : Type} (QCap : MPMCQueue.Capacity) (formatToN : FormatToN Message)
    (bytes : UInt64 → FixedSizeRecord RecordSize) (logLevel : Index → LogLevel)
    (outputs : Index → List File) (logger : Index) :
    Backs QCap formatToN (MPMCQueue.start bytes : MPMCQueue.State Thread _)
      ((start logLevel outputs).loggers logger) :=
  ⟨rfl, MPMCQueue.shows_start QCap bytes, fun _ _ here => by cases here⟩

/-- A call of `log` that passes the level check claims a place. -/
theorem Backs.log (backs : Backs QCap formatToN q object)
    (few : q.head.toNat + QCap.value.toNat < 2 ^ 63) (idle : q.pc thread = .idle)
    (message : Message) :
    ∃ next, Transitions.execute (MPMCQueue.system QCap moved) q
        [.call thread (.emplaceWith (makeRecord formatToN message)), .step thread] =
        some (next, [.called thread (.emplaceWith (makeRecord formatToN message)),
          .claimedHead thread q.head 1]) ∧
      Backs QCap formatToN next (object.setQueue (object.queue ++ [.claimed message])) := by
  have positive := QCap.pos
  have length := backs.length
  have called : MPMCQueue.system QCap moved q
      (.call thread (.emplaceWith (makeRecord formatToN message))) =
        some (q.setPc thread (.fetchHead [makeRecord formatToN message]),
          [.called thread (.emplaceWith (makeRecord formatToN message))]) := by
    rw [MPMCQueue.system, idle]
    rfl
  obtain ⟨next, claimed, pcs, tail, shows⟩ :=
    (backs.shows.setPc thread (.fetchHead [makeRecord formatToN message])).claim
      (MPMCQueue.State.setPc_pc_self _ _ _) (by rw [MPMCQueue.State.setPc_head]; omega)
  rw [MPMCQueue.State.setPc_head] at pcs claimed
  rw [MPMCQueue.State.setPc_tail] at tail
  refine ⟨next, Transitions.execute_cons called (Transitions.execute_cons claimed rfl), ?_, ?_,
    fun place other here => ?_⟩
  · rw [tail]
    exact backs.consumed
  · show Shows QCap next ((object.queue ++ [Place.claimed message]).map Place.record)
    rw [List.map_append]
    exact shows
  · rcases Nat.lt_or_ge place object.queue.length with before | last
    · -- an earlier call of another thread
      have old : object.queue[place]? = some (.claimed other) := by
        rw [← here]
        exact (List.getElem?_append_left before).symm
      obtain ⟨waiting, pc⟩ := backs.claimed place other old
      have different : waiting ≠ thread := by
        rintro rfl
        rw [idle] at pc
        cases pc
      refine ⟨waiting, ?_⟩
      rw [pcs, Function.update_of_ne different, MPMCQueue.State.setPc_pc_other _ _ _ different, pc,
        tail]
    · have new : ([.claimed message] : List (Place Message RecordSize))[
          place - object.queue.length]? = some (.claimed other) := by
        rw [← here]
        exact (List.getElem?_append_right last).symm
      cases gap : place - object.queue.length with
      | zero =>
        rw [gap] at new
        cases new
        have ticket : q.head = q.tail + UInt64.ofNat place := by
          rw [← UInt64.toNat_inj, MPMCQueue.toNat_add_ofNat (by omega), length]
          omega
        exact ⟨thread, by rw [pcs, Function.update_self, tail, ticket]⟩
      | succ gap' =>
        rw [gap] at new
        cases new

/-- The thread that waits at a place within a lap writes its record there. -/
theorem Backs.publish (backs : Backs QCap formatToN q object)
    (few : q.head.toNat + QCap.value.toNat < 2 ^ 63) {place : Nat} {message : Message}
    (here : object.queue[place]? = some (.claimed message)) (lap : place < QCap.value.toNat) :
    ∃ thread next slot, Transitions.execute (MPMCQueue.system QCap moved) q
        (List.replicate 3 (.step thread)) =
        some (next, [.constructed thread (q.tail + UInt64.ofNat place)
          (makeRecord formatToN message slot), .returned thread .unit]) ∧
      Backs QCap formatToN next
        (object.setQueue
          (object.queue.set place (.written (makeRecord formatToN message slot)))) := by
  have length := backs.length
  have inside := (List.getElem?_eq_some_iff.mp here).1
  obtain ⟨thread, pc⟩ := backs.claimed place message here
  have empty : (object.queue.map Place.record)[place]? = some none := by
    rw [List.getElem?_map, here]
    rfl
  obtain ⟨next, executed, pcs, tail, _, shows⟩ := backs.shows.write (by omega) pc empty lap
  refine ⟨thread, next, _, executed, ?_, ?_, fun place' other there => ?_⟩
  · rw [tail]
    exact backs.consumed
  · show Shows QCap next ((object.queue.set place _).map Place.record)
    rw [List.map_set]
    exact shows
  · have there' : (object.queue.set place
      (.written (makeRecord formatToN message _)))[place']? = some (.claimed other) := there
    have different : place ≠ place' := by
      rintro rfl
      rw [List.getElem?_set_self inside] at there'
      cases there'
    rw [List.getElem?_set_ne different] at there'
    obtain ⟨waiting, pc'⟩ := backs.claimed place' other there'
    have inside' := (List.getElem?_eq_some_iff.mp there').1
    have apart : waiting ≠ thread := by
      rintro rfl
      rw [pc] at pc'
      injection pc' with ticket
      have same := congrArg UInt64.toNat ticket
      rw [MPMCQueue.toNat_add_ofNat (by omega), MPMCQueue.toNat_add_ofNat (by omega)] at same
      omega
    exact ⟨waiting, by rw [pcs, Function.update_of_ne apart, pc', tail]⟩

/-- The queue hands the functor of `poll` what has been published. -/
theorem Backs.tryConsumeAll (backs : Backs QCap formatToN q object)
    (few : q.head.toNat + QCap.value.toNat < 2 ^ 63) (idle : q.pc thread = .idle)
    (f : FixedSizeRecord RecordSize → FixedSizeRecord RecordSize) :
    ∃ next events, Transitions.execute (MPMCQueue.system QCap moved) q
        (.call thread (.tryConsumeAll f) ::
          List.replicate (5 * (published object.queue).length + 3) (.step thread)) =
        some (next, .called thread (.tryConsumeAll f) :: events) ∧
      takenIn events = (published object.queue).zipIdx object.consumed ∧
      returned events = some (.count (published object.queue).length) ∧
      Backs QCap formatToN next (object.consume (published object.queue).length) := by
  have length := backs.length
  obtain ⟨next, events, executed, pcs, tail, shows, taken, returns⟩ :=
    backs.shows.tryConsumeAll few idle f
  rw [written_map_record] at executed tail shows taken returns
  refine ⟨next, events, executed, backs.consumed ▸ taken, returns, ?_, ?_,
    fun place message here => ?_⟩
  · rw [tail, backs.consumed]
    rfl
  · rw [← List.map_drop] at shows
    exact shows
  · have here' : (object.queue.drop (published object.queue).length)[place]? =
      some (.claimed message) := here
    rw [List.getElem?_drop] at here'
    have inside := (List.getElem?_eq_some_iff.mp here').1
    obtain ⟨waiting, pc⟩ := backs.claimed _ message here'
    have ticket : q.tail + UInt64.ofNat ((published object.queue).length + place) =
        next.tail + UInt64.ofNat place := by
      rw [← UInt64.toNat_inj, MPMCQueue.toNat_add_ofNat (by omega),
        MPMCQueue.toNat_add_ofNat (by omega), tail, Nat.add_assoc]
    exact ⟨waiting, by rw [pcs, pc, ticket]⟩

end Loggers

end Sheep
