/-
This file bounds what the operations on the buffers of a connection touch. As long
as no call of `recv` fails, the size of each buffer stays within its capacity, and
so do all accesses. A call that fails stores its error number as a size, which is
then far beyond the capacity.
-/

import Sheep.ConnectionBuffer

namespace Sheep

namespace ConnectionBuffers

/-! ### What is to be shown -/

/-- The sizes are within the capacities. -/
structure Bounded (s : State) : Prop where
  read : s.readBuf.size ≤ s.readBuf.capacity
  write : s.writeBuf.size ≤ s.writeBuf.capacity

/-- Nothing beyond the allocated memory has been touched. -/
def InBounds (s : State) (trace : List Event) : Prop :=
  ∀ buf count, .touched buf count ∈ trace → count ≤ s.memory.allocated buf

/-- The action does not complete a call of `recv` with an error. -/
def Action.NoFailedRecv : Action → Prop
  | .received _ result _ => 0 ≤ result
  | _ => True

instance (action : Action) : Decidable action.NoFailedRecv := by
  cases action <;> unfold Action.NoFailedRecv <;> infer_instance

/-! ### What a step does -/

variable {s next : State} {trace events : List Event} {action : Action}

@[simp] theorem buffer_setCall (s : State) (k : Nat) (call : Option Call) (which : Which) :
    (s.setCall k call).buffer which = s.buffer which := by
  cases which <;> rfl

/-- An exchange brings no new buffers. -/
theorem exists_buffer_exchange (s : State) (first second which : Which) :
    ∃ which', (s.exchange first second).buffer which = s.buffer which' := by
  cases first <;> cases second <;> cases which
  all_goals first | exact ⟨.read, rfl⟩ | exact ⟨.write, rfl⟩

@[simp] theorem calls_exchange (s : State) (first second : Which) :
    (s.exchange first second).calls = s.calls := by
  cases first <;> cases second <;> rfl

/-- The steps, case by case. -/
inductive Happens (s next : State) (events : List Event) : Action → Prop
  | recv {k : Nat} : next = { s with memory := (s.readBuf.clear s.memory).1 }.setCall k
      (some (.recv s.readBuf.buf s.readBuf.capacity)) →
      events = (s.readBuf.clear s.memory).2 → Happens s next events (.recv k)
  | received {k len : Nat} {buf : Option Block} {result : Int} {data : List Byte} :
      s.calls k = some (.recv buf len) → RecvResult len result data →
      next = { s with
        memory := s.memory.store buf data
        readBuf := s.readBuf.setSize (sizeOfInt result) }.setCall k none →
      events = [.touched buf data.length] → Happens s next events (.received k result data)
  | send {k : Nat} : next = s.setCall k (some (.send s.writeBuf.buf s.writeBuf.size)) →
      events = [] → Happens s next events (.send k)
  | sent {k len : Nat} {buf : Option Block} {result : Int} :
      s.calls k = some (.send buf len) → next = s.setCall k none →
      events = [.touched buf len] → Happens s next events (.sent k result)
  | swap {first second : Which} : next = s.exchange first second → events = [] →
      Happens s next events (.swap first second)
  | moveAssign {target source : Which} : next = s ∨ next = s.exchange target source →
      events = [] → Happens s next events (.moveAssign target source)
  | write {which : Which} {data : List Byte} : data.length ≤ (s.buffer which).capacity →
      next = { s with memory := ((s.buffer which).write s.memory data).2.1 }.setBuffer
        ((s.buffer which).write s.memory data).1 which →
      events = ((s.buffer which).write s.memory data).2.2 →
      Happens s next events (.write which data)
  | toString {which : Which} : next = s →
      events = [.touched (s.buffer which).buf (s.buffer which).size] →
      Happens s next events (.toString which)

theorem happens_of_step (step : system s action = some (next, events)) :
    Happens s next events action := by
  cases action with
  | recv k =>
    rw [system] at step
    split at step
    · cases step
      exact .recv rfl rfl
    · cases step
  | received k result data =>
    rw [system] at step
    split at step
    · rename_i buf len call
      split at step
      · rename_i possible
        cases step
        exact .received call possible rfl rfl
      · cases step
    · cases step
  | send k =>
    rw [system] at step
    split at step
    · cases step
      exact .send rfl rfl
    · cases step
  | sent k result =>
    rw [system] at step
    split at step
    · rename_i buf len call
      cases step
      exact .sent call rfl rfl
    · cases step
  | swap first second =>
    cases step
    exact .swap rfl rfl
  | moveAssign target source =>
    cases step
    refine .moveAssign ?_ rfl
    split
    · exact Or.inl rfl
    · exact Or.inr rfl
  | write which data =>
    rw [system] at step
    split at step
    · rename_i room
      cases step
      exact .write room rfl rfl
    · cases step
  | toString which =>
    cases step
    exact .toString rfl rfl

/-- No step allocates memory. -/
theorem allocated_of_happens (happens : Happens s next events action) (buf : Option Block) :
    next.memory.allocated buf = s.memory.allocated buf := by
  cases happens with
  | recv same _ =>
    rw [same]
    exact Buffer.allocated_clear _ _ _
  | received _ _ same _ =>
    rw [same]
    exact Memory.allocated_store _ _ _ _
  | send same _ | sent _ same _ =>
    rw [same]
    rfl
  | toString same _ => rw [same]
  | @swap first second same _ => rw [same]; cases first <;> cases second <;> rfl
  | @moveAssign target source same _ =>
    rcases same with same | same <;> rw [same]
    cases target <;> cases source <;> rfl
  | @write which data _ same _ =>
    have cleared := (s.buffer which).allocated_clear s.memory buf
    rw [same]
    cases which <;> exact (Memory.allocated_store _ _ _ _).trans cleared

/-! ### Where the buffers lie -/

/-- Every buffer is a block of the default capacity, and a call of `recv` offers the kernel no more
than it has. -/
structure Placed (s : State) : Prop where
  allocated : ∀ which, s.memory.allocated (s.buffer which).buf = defaultBufferCapacity
  capacity : ∀ which, (s.buffer which).capacity = defaultBufferCapacity
  offered : ∀ k buf len, s.calls k = some (.recv buf len) →
    len = defaultBufferCapacity ∧ s.memory.allocated buf = defaultBufferCapacity

/-- A buffer of the next state lies where one of the state lies. -/
theorem exists_buffer_of_happens (happens : Happens s next events action) (which : Which) :
    ∃ which', (next.buffer which).buf = (s.buffer which').buf ∧
      (next.buffer which).capacity = (s.buffer which').capacity := by
  cases happens with
  | recv same _ | send same _ | sent _ same _ =>
    refine ⟨which, ?_⟩
    rw [same, buffer_setCall]
    cases which <;> exact ⟨rfl, rfl⟩
  | received _ _ same _ =>
    refine ⟨which, ?_⟩
    rw [same, buffer_setCall]
    cases which <;> exact ⟨rfl, rfl⟩
  | toString same _ => exact ⟨which, by rw [same], by rw [same]⟩
  | @swap first second same _ =>
    obtain ⟨which', exchanged⟩ := exists_buffer_exchange s first second which
    exact ⟨which', by rw [same, exchanged], by rw [same, exchanged]⟩
  | @moveAssign target source same _ =>
    rcases same with same | same
    · exact ⟨which, by rw [same], by rw [same]⟩
    · obtain ⟨which', exchanged⟩ := exists_buffer_exchange s target source which
      exact ⟨which', by rw [same, exchanged], by rw [same, exchanged]⟩
  | @write which' data _ same _ =>
    refine ⟨which, ?_⟩
    rw [same]
    cases which <;> cases which' <;> exact ⟨rfl, rfl⟩

/-- A call that is awaited after a step was awaited before, or has been made on a buffer of the
state. -/
theorem call_of_happens (happens : Happens s next events action) {k : Nat} {call : Call}
    (awaited : next.calls k = some call) : s.calls k = some call ∨
      call = .recv s.readBuf.buf s.readBuf.capacity ∨
      call = .send s.writeBuf.buf s.writeBuf.size := by
  have onSet {k' : Nat} {made : Option Call} {before : State} (same : next = before.setCall k' made)
      (kept : before.calls = s.calls) : s.calls k = some call ∨ made = some call := by
    rw [same] at awaited
    by_cases this : k = k'
    · subst this
      rw [State.setCall_calls_self] at awaited
      exact Or.inr awaited
    · rw [State.setCall_calls_other _ _ this, kept] at awaited
      exact Or.inl awaited
  cases happens with
  | recv same _ =>
    rcases onSet same rfl with old | new
    · exact Or.inl old
    · cases new
      exact Or.inr (Or.inl rfl)
  | send same _ =>
    rcases onSet same rfl with old | new
    · exact Or.inl old
    · cases new
      exact Or.inr (Or.inr rfl)
  | received _ _ same _ | sent _ same _ =>
    rcases onSet same rfl with old | new
    · exact Or.inl old
    · cases new
  | swap same _ =>
    rw [same, calls_exchange] at awaited
    exact Or.inl awaited
  | moveAssign same _ =>
    rcases same with same | same
    · rw [same] at awaited
      exact Or.inl awaited
    · rw [same, calls_exchange] at awaited
      exact Or.inl awaited
  | @write which data _ same _ =>
    rw [same] at awaited
    cases which <;> exact Or.inl awaited
  | toString same _ =>
    rw [same] at awaited
    exact Or.inl awaited

theorem placed_of_happens (placed : Placed s) (happens : Happens s next events action) :
    Placed next := by
  refine ⟨fun which => ?_, fun which => ?_, fun k buf len awaited => ?_⟩
  · obtain ⟨which', buf, _⟩ := exists_buffer_of_happens happens which
    rw [allocated_of_happens happens, buf]
    exact placed.allocated which'
  · obtain ⟨which', _, capacity⟩ := exists_buffer_of_happens happens which
    rw [capacity]
    exact placed.capacity which'
  · rw [allocated_of_happens happens]
    rcases call_of_happens happens awaited with old | new | new
    · exact placed.offered k buf len old
    · cases new
      exact ⟨placed.capacity .read, placed.allocated .read⟩
    · cases new

variable {rubbish : Block → Nat → Byte}

theorem placed_start : Placed (start rubbish) := by
  refine ⟨fun which => ?_, fun which => ?_, fun k buf len awaited => ?_⟩
  · cases which with
    | read => exact length_memory_start rubbish (by decide)
    | write => exact length_memory_start rubbish (by decide)
  · cases which <;> rfl
  · cases awaited

theorem placed_of_reaches (run : Transitions.Reaches system (start rubbish) s trace) : Placed s :=
  run.invariant (fun s _ => Placed s) placed_start
    fun _ _ _ _ _ _ placed step => placed_of_happens placed (happens_of_step step)

/-! ### What a failed call does -/

/-- A negative result is taken for a size beyond any capacity. -/
theorem lt_sizeOfInt {result : Int} (int : -2 ^ 31 ≤ result) (negative : result < 0) :
    defaultBufferCapacity < sizeOfInt result := by
  rw [sizeOfInt, defaultBufferCapacity]
  omega

/-- A call of `recv` that fails breaks the bound at once, wherever it completes. -/
theorem not_bounded_of_failed (run : Transitions.Reaches system (start rubbish) s trace)
    (step : system s action = some (next, events)) (failed : ¬ action.NoFailedRecv) :
    ¬ Bounded next := by
  intro bounded
  have placed := placed_of_happens (placed_of_reaches run) (happens_of_step step)
  cases happens_of_step step with
  | @received k len buf result data call possible same _ =>
    have negative : result < 0 := Int.not_le.mp failed
    rcases possible with ⟨int, _, _⟩ | ⟨count, _⟩
    · have capacity : next.readBuf.capacity = defaultBufferCapacity := placed.capacity .read
      have beyond := lt_sizeOfInt int negative
      have fits := bounded.read
      rw [capacity, same] at fits
      exact absurd fits (Nat.not_le.mpr beyond)
    · omega
  | recv | send | sent | swap | moveAssign | write | toString => exact failed trivial

/-! ### What the other steps do -/

/-- The sizes are within the capacities, here and in what is being sent, and nothing else has been
touched. -/
structure Fits (s : State) (trace : List Event) : Prop where
  size : ∀ which, (s.buffer which).size ≤ defaultBufferCapacity
  sending : ∀ k buf len, s.calls k = some (.send buf len) → len ≤ s.memory.allocated buf
  touched : InBounds s trace

/-- Touching a stretch within the allocated memory. -/
theorem InBounds.append (within : InBounds s trace)
    (same : ∀ buf, next.memory.allocated buf = s.memory.allocated buf)
    (more : ∀ buf count, .touched buf count ∈ events → count ≤ s.memory.allocated buf) :
    InBounds next (trace ++ events) := by
  intro buf count member
  rw [same]
  rcases List.mem_append.mp member with old | new
  · exact within buf count old
  · exact more buf count new

theorem touched_clear (buffer : Buffer) (memory : Memory)
    (size : buffer.size ≤ memory.allocated buffer.buf) {buf : Option Block} {count : Nat}
    (touched : .touched buf count ∈ (buffer.clear memory).2) : count ≤ memory.allocated buf := by
  unfold Buffer.clear at touched
  split at touched
  · cases List.mem_singleton.mp touched
    exact size
  · cases touched

/-- A count that the kernel returns fits into an `int`, and is stored as it is. -/
theorem sizeOfInt_natCast {count : Nat} (small : count ≤ defaultBufferCapacity) :
    sizeOfInt count = count := by
  rw [defaultBufferCapacity] at small
  rw [sizeOfInt]
  omega

/-- What a step touches lies within the allocated memory. -/
theorem touched_of_happens (placed : Placed s) (fits : Fits s trace)
    (happens : Happens s next events action) {buf : Option Block} {count : Nat}
    (touched : .touched buf count ∈ events) : count ≤ s.memory.allocated buf := by
  have size (which : Which) : (s.buffer which).size ≤ s.memory.allocated (s.buffer which).buf := by
    rw [placed.allocated]
    exact fits.size which
  cases happens with
  | recv _ same =>
    rw [same] at touched
    exact touched_clear _ _ (size .read) touched
  | @received k len buf' result data call possible _ same =>
    rw [same] at touched
    cases List.mem_singleton.mp touched
    obtain ⟨offered, allocated⟩ := placed.offered k buf len call
    rcases possible with ⟨_, _, empty⟩ | ⟨_, few⟩
    · rw [empty]
      exact Nat.zero_le _
    · omega
  | @sent k len buf' result call _ same =>
    rw [same] at touched
    cases List.mem_singleton.mp touched
    exact fits.sending k _ _ call
  | send _ same | swap _ same | moveAssign _ same =>
    rw [same] at touched
    cases touched
  | @write which data room _ same =>
    rw [same] at touched
    rcases List.mem_append.mp touched with cleared | copied
    · exact touched_clear _ _ (size which) cleared
    · cases List.mem_singleton.mp copied
      rw [placed.allocated, ← placed.capacity which]
      exact room
  | @toString which _ same =>
    rw [same] at touched
    cases List.mem_singleton.mp touched
    exact size which

/-- A step that fails no call of `recv` keeps the sizes within the capacities. -/
theorem size_of_happens (placed : Placed s) (fits : Fits s trace) (succeeds : action.NoFailedRecv)
    (happens : Happens s next events action) (which : Which) :
    (next.buffer which).size ≤ defaultBufferCapacity := by
  cases happens with
  | recv same _ | send same _ | sent _ same _ =>
    rw [same, buffer_setCall]
    cases which with
    | read => exact fits.size .read
    | write => exact fits.size .write
  | @received k len buf result data call possible same _ =>
    rw [same, buffer_setCall]
    cases which with
    | read =>
      obtain ⟨offered, _⟩ := placed.offered k buf len call
      rcases possible with ⟨_, negative, _⟩ | ⟨count, few⟩
      · exact absurd succeeds (Int.not_le.mpr negative)
      · show sizeOfInt result ≤ defaultBufferCapacity
        rw [count, sizeOfInt_natCast (by omega)]
        omega
    | write => exact fits.size .write
  | toString same _ =>
    rw [same]
    exact fits.size which
  | @swap first second same _ =>
    obtain ⟨which', exchanged⟩ := exists_buffer_exchange s first second which
    rw [same, exchanged]
    exact fits.size which'
  | @moveAssign target source same _ =>
    rcases same with same | same
    · rw [same]
      exact fits.size which
    · obtain ⟨which', exchanged⟩ := exists_buffer_exchange s target source which
      rw [same, exchanged]
      exact fits.size which'
  | @write which' data room same _ =>
    rw [placed.capacity] at room
    rw [same]
    cases which <;> cases which'
    · exact room
    · exact fits.size .read
    · exact fits.size .write
    · exact room

theorem fits_of_happens (placed : Placed s) (fits : Fits s trace) (succeeds : action.NoFailedRecv)
    (happens : Happens s next events action) : Fits next (trace ++ events) := by
  refine ⟨size_of_happens placed fits succeeds happens, fun k buf len awaited => ?_,
    fits.touched.append (allocated_of_happens happens) fun buf count touched =>
      touched_of_happens placed fits happens touched⟩
  rw [allocated_of_happens happens]
  rcases call_of_happens happens awaited with old | new | new
  · exact fits.sending k buf len old
  · cases new
  · cases new
    have allocated : s.memory.allocated s.writeBuf.buf = defaultBufferCapacity :=
      placed.allocated .write
    rw [allocated]
    exact fits.size .write

/-- Where no call of `recv` fails, the sizes stay within the capacities, and nothing outside the
allocated memory is touched. -/
theorem bounded_of_succeeds
    (run : Transitions.ReachesBy (fun _ action => Action.NoFailedRecv action) system
      (start rubbish) s trace) : Bounded s ∧ InBounds s trace := by
  have fits : Fits s trace := by
    refine run.invariant Fits ⟨?_, ?_, ?_⟩
      fun _ _ _ _ _ before fits succeeds step =>
        fits_of_happens (placed_of_reaches before.reaches) fits succeeds (happens_of_step step)
    · intro which
      cases which <;> exact Nat.zero_le _
    · intro k buf len awaited
      cases awaited
    · intro buf count touched
      cases touched
  have placed := placed_of_reaches run.reaches
  refine ⟨⟨?_, ?_⟩, fits.touched⟩
  · have capacity : s.readBuf.capacity = defaultBufferCapacity := placed.capacity .read
    rw [capacity]
    exact fits.size .read
  · have capacity : s.writeBuf.capacity = defaultBufferCapacity := placed.capacity .write
    rw [capacity]
    exact fits.size .write

/-- The sizes stay within the capacities, and nothing outside the allocated memory is touched, for
as long as no call of `recv` fails. The first one that fails breaks the bound. -/
theorem bounded_of_noFailedRecv (rubbish : Block → Nat → Byte) :
    (∀ s trace, Transitions.ReachesBy (fun _ action => Action.NoFailedRecv action) system
      (start rubbish) s trace → Bounded s ∧ InBounds s trace) ∧
    ∀ s trace action next events, Transitions.Reaches system (start rubbish) s trace →
      system s action = some (next, events) → ¬ action.NoFailedRecv → ¬ Bounded next :=
  ⟨fun _ _ run => bounded_of_succeeds run, fun _ _ _ _ _ run step => not_bounded_of_failed run step⟩

/-- What an echo server does, with a message of two bytes: it is received, the buffers are
exchanged, and it is sent back. -/
def echo : List Action :=
  [.recv 0, .received 0 2 (ascii "hi"), .swap .write .read, .send 1, .sent 1 2, .recv 2,
    .received 2 0 []]

theorem bounded_of_noFailedRecv_echo : ∃ s trace,
    s.writeBuf = ⟨some 0, 2, defaultBufferCapacity⟩ ∧ .touched (some 0) 2 ∈ trace ∧
      Bounded s ∧ InBounds s trace := by
  have reached : (Transitions.executeBy (fun _ action => Action.NoFailedRecv action) system
      (start fun _ _ => 0) echo).any (fun reached => decide
        (reached.1.writeBuf = ⟨some 0, 2, defaultBufferCapacity⟩ ∧
          .touched (some 0) 2 ∈ reached.2)) = true := by
    decide +kernel
  obtain ⟨⟨s, trace⟩, executed, same⟩ := (Option.any_eq_true _ _).mp reached
  obtain ⟨writeBuf, touched⟩ := of_decide_eq_true same
  exact ⟨s, trace, writeBuf, touched,
    (bounded_of_noFailedRecv _).1 s trace (Transitions.reachesBy_of_executeBy .start executed)⟩

/-- A connection that is reset while it is awaited, and received from once more. -/
theorem not_bounded_reset : ¬ ∀ rubbish s trace,
    Transitions.Reaches system (start rubbish) s trace → Bounded s ∧ InBounds s trace := by
  intro bounded
  have reached : (Transitions.execute system (start fun _ _ => 0)
      [.recv 0, .received 0 (-104) [], .recv 1]).any (fun reached => decide
        (.touched (some 0) (2 ^ 64 - 104) ∈ reached.2 ∧
          reached.1.readBuf.capacity < reached.1.readBuf.size)) = true := by
    decide +kernel
  obtain ⟨⟨s, trace⟩, executed, same⟩ := (Option.any_eq_true _ _).mp reached
  obtain ⟨_, beyond⟩ := of_decide_eq_true same
  have fits := (bounded _ s trace (Transitions.reaches_of_execute executed)).1.read
  exact absurd fits (Nat.not_le.mpr beyond)

end ConnectionBuffers

end Sheep
