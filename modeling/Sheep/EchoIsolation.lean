/-
This file finds out whose bytes the clients of the echo server get. A session
touches its buffers only within their bounds, whatever the kernel returns. As long
as the number of a descriptor is not given away between the two closes of the
connection that had it, every client gets back a prefix of what it has sent, once.
Where a number is given away too early, a client can get what another one sent.
-/

import Sheep.BufferBounds
import Sheep.EchoServer

namespace Sheep

namespace EchoServer

open Connections (Owner)
open ConnectionBuffers (Memory defaultBufferCapacity)

/-! ### What a session does with its buffers -/

section Buffers

variable {b filled replied : ConnectionBuffers.State} {told : List ConnectionBuffers.Event}
  {result : Int} {data : List Byte}

/-- The session waits for bytes in its read buffer. -/
structure Receiving (b : ConnectionBuffers.State) : Prop where
  readBuf : b.readBuf = ⟨some 0, 0, defaultBufferCapacity⟩
  recv : b.calls 0 = some (.recv (some 0) defaultBufferCapacity)
  send : b.calls 1 = none
  room : b.memory.allocated (some 0) = defaultBufferCapacity

/-- Bytes have been received, and the session has not gone on yet. -/
structure Filled (b : ConnectionBuffers.State) (data : List Byte) : Prop where
  readBuf : b.readBuf = ⟨some 0, data.length, defaultBufferCapacity⟩
  send : b.calls 1 = none
  holds : b.memory.load (some 0) data.length = data
  room : b.memory.allocated (some 0) = defaultBufferCapacity
  fits : data.length ≤ defaultBufferCapacity

/-- The session waits until these bytes have been sent. -/
structure Sending (b : ConnectionBuffers.State) (data : List Byte) : Prop where
  send : b.calls 1 = some (.send (some 0) data.length)
  holds : b.memory.load (some 0) data.length = data
  room : b.memory.allocated (some 0) = defaultBufferCapacity
  fits : data.length ≤ defaultBufferCapacity

theorem recv_start (rubbish : ConnectionBuffers.Block → Nat → Byte) :
    ∃ b, ConnectionBuffers.system (ConnectionBuffers.start rubbish) (.recv 0) = some (b, []) ∧
      Receiving b := by
  refine ⟨(ConnectionBuffers.start rubbish).setCall 0 (some (.recv (some 0) defaultBufferCapacity)),
    rfl, rfl, ConnectionBuffers.State.setCall_calls_self .., ?_, ?_⟩
  · exact ConnectionBuffers.State.setCall_calls_other _ _ (by decide)
  · exact ConnectionBuffers.placed_start.allocated .read

theorem received_of_receiving (receiving : Receiving b)
    (step : ConnectionBuffers.system b (.received 0 result data) = some (filled, told)) :
    told = [.touched (some 0) data.length] ∧ data.length ≤ defaultBufferCapacity ∧
      filled.memory.allocated (some 0) = defaultBufferCapacity ∧
      (1 ≤ result → result = data.length ∧ Filled filled data) := by
  rw [ConnectionBuffers.system, receiving.recv] at step
  simp only at step
  split at step
  · rename_i possible
    cases step
    have fits : data.length ≤ defaultBufferCapacity := by
      rcases possible with ⟨_, _, empty⟩ | ⟨_, few⟩
      · rw [empty]
        exact Nat.zero_le _
      · exact few
    have room : (b.memory.store (some 0) data).allocated (some 0) = defaultBufferCapacity := by
      rw [Memory.allocated_store, receiving.room]
    refine ⟨rfl, fits, room, fun positive => ?_⟩
    have counted : result = data.length := by
      rcases possible with ⟨_, negative, _⟩ | ⟨counted, _⟩
      · omega
      · exact counted
    refine ⟨counted, ?_, ?_, ?_, room, fits⟩
    · have size : ConnectionBuffers.sizeOfInt result = data.length := by
        rw [defaultBufferCapacity] at fits
        rw [counted, ConnectionBuffers.sizeOfInt]
        omega
      show b.readBuf.setSize (ConnectionBuffers.sizeOfInt result) = _
      rw [size, receiving.readBuf]
      rfl
    · exact (ConnectionBuffers.State.setCall_calls_other _ _ (by decide)).trans receiving.send
    · exact Memory.load_store _ (by rw [receiving.room]; exact fits)
  · cases step

/-- What has been received is logged, and sent from the same block. -/
theorem reply_of_filled (holds : Filled filled data) :
    ∃ replied, Transitions.execute ConnectionBuffers.system filled reply =
        some (replied, [.touched (some 0) data.length]) ∧ Sending replied data := by
  have send : (filled.exchange .write .read).calls 1 = none := holds.send
  have sending : ConnectionBuffers.system (filled.exchange .write .read) (.send 1) =
      some ((filled.exchange .write .read).setCall 1 (some (.send (some 0) data.length)), []) := by
    rw [ConnectionBuffers.system, if_pos send]
    show some ((filled.exchange .write .read).setCall 1
      (some (.send filled.readBuf.buf filled.readBuf.size)), []) = _
    rw [holds.readBuf]
  have logged : ConnectionBuffers.system filled (.toString .read) =
      some (filled, [.touched (some 0) data.length]) := by
    show some (filled, [ConnectionBuffers.Event.touched filled.readBuf.buf filled.readBuf.size]) = _
    rw [holds.readBuf]
  have exchanged : ConnectionBuffers.system filled (.swap .write .read) =
      some (filled.exchange .write .read, []) := rfl
  exact ⟨_, Transitions.execute_cons logged (Transitions.execute_cons exchanged
    (Transitions.execute_cons sending rfl)), ConnectionBuffers.State.setCall_calls_self ..,
    holds.holds, holds.room, holds.fits⟩

theorem sent_of_sending (sending : Sending b data) (result : Int) :
    ∃ b', ConnectionBuffers.system b (.sent 1 result) =
        some (b', [.touched (some 0) data.length]) ∧
      b'.memory.allocated (some 0) = defaultBufferCapacity := by
  refine ⟨b.setCall 1 none, ?_, sending.room⟩
  rw [ConnectionBuffers.system, sending.send]

end Buffers

/-! ### What a step does -/

variable {table : Int → Option Owner} {rubbish : Nat → ConnectionBuffers.Block → Nat → Byte}
  {s next : State} {trace events : List Event} {action : Action}

section SetSession

variable (s : State) (k : Nat) (pc : Pc) (buffers : ConnectionBuffers.State)

@[simp] theorem setSession_pc_self : (s.setSession k pc buffers).pc k = pc :=
  Function.update_self ..

@[simp] theorem setSession_buffers_self : (s.setSession k pc buffers).buffers k = buffers :=
  Function.update_self ..

theorem setSession_pc_other {other : Nat} (different : other ≠ k) :
    (s.setSession k pc buffers).pc other = s.pc other := Function.update_of_ne different ..

theorem setSession_buffers_other {other : Nat} (different : other ≠ k) :
    (s.setSession k pc buffers).buffers other = s.buffers other :=
  Function.update_of_ne different ..

end SetSession

@[simp] theorem advance_pc (s : State) (count : Nat) (file : Option Owner) :
    (s.advance count file).pc = s.pc := by
  rcases file with _ | _ | j <;> rfl

@[simp] theorem advance_buffers (s : State) (count : Nat) (file : Option Owner) :
    (s.advance count file).buffers = s.buffers := by
  rcases file with _ | _ | j <;> rfl

@[simp] theorem advance_conns (s : State) (count : Nat) (file : Option Owner) :
    (s.advance count file).conns = s.conns := by
  rcases file with _ | _ | j <;> rfl

@[simp] theorem deliver_pc (s : State) (bytes : List Byte) (file : Option Owner) :
    (s.deliver bytes file).pc = s.pc := by
  rcases file with _ | _ | j <;> rfl

@[simp] theorem deliver_buffers (s : State) (bytes : List Byte) (file : Option Owner) :
    (s.deliver bytes file).buffers = s.buffers := by
  rcases file with _ | _ | j <;> rfl

@[simp] theorem deliver_conns (s : State) (bytes : List Byte) (file : Option Owner) :
    (s.deliver bytes file).conns = s.conns := by
  rcases file with _ | _ | j <;> rfl

/-- What an action does to the descriptors. -/
def Action.ofConnections : Action → Option Connections.Action
  | .accept fd => some (.accept fd)
  | .destroyConnection k => some (.destroyConnection k)
  | .destroySocket k => some (.destroySocket k)
  | _ => none

/-- The steps, case by case. -/
inductive Happens (s next : State) (events : List Event) (action : Action) : Prop
  | connects {action' : Connections.Action} {conns : Connections.State}
      {told : List Connections.Event} : action.ofConnections = some action' →
      (∀ k, action' = .destroyConnection k → s.pc k = .finished) →
      Connections.system s.conns action' = some (conns, told) → next = { s with conns := conns } →
      events = told.map .connection → Happens s next events action
  | arrive {k : Nat} {bytes : List Byte} : action = .arrive k bytes →
      next = { s with sent := Function.update s.sent k (s.sent k ++ bytes) } → events = [] →
      Happens s next events action
  | resume {k : Nat} {connection : Connections.Connection} {buffers : ConnectionBuffers.State}
      {told : List ConnectionBuffers.Event} : action = .resume k → s.pc k = .created →
      s.conns.session k = .live connection →
      ConnectionBuffers.system (s.buffers k) (.recv 0) = some (buffers, told) →
      next = s.setSession k (.receiving (.prepared connection.getFd)) buffers →
      events = told.map (.memory k) → Happens s next events action
  | takeRecv {k : Nat} {fd : Int} : action = .take k → s.pc k = .receiving (.prepared fd) →
      next = s.setSession k (.receiving (.taken (s.conns.table fd))) (s.buffers k) → events = [] →
      Happens s next events action
  | takeSend {k : Nat} {fd : Int} : action = .take k → s.pc k = .sending (.prepared fd) →
      next = s.setSession k (.sending (.taken (s.conns.table fd))) (s.buffers k) → events = [] →
      Happens s next events action
  | receive {k : Nat} {result : Int} {data : List Byte} {file : Option Owner}
      {connection : Connections.Connection} {filled replied : ConnectionBuffers.State} {pc : Pc}
      {told told' : List ConnectionBuffers.Event} : action = .receive k result data →
      s.pc k = .receiving (.taken file) → s.conns.session k = .live connection →
      s.Delivers result data file →
      ConnectionBuffers.system (s.buffers k) (.received 0 result data) = some (filled, told) →
      afterRecv result connection.getFd filled = some (pc, replied, told') →
      next = (s.advance data.length file).setSession k pc replied →
      events = (told ++ told').map (.memory k) → Happens s next events action
  | transmit {k len : Nat} {result : Int} {file : Option Owner}
      {buf : Option ConnectionBuffers.Block} {buffers : ConnectionBuffers.State}
      {told : List ConnectionBuffers.Event} : action = .transmit k result →
      s.pc k = .sending (.taken file) → (s.buffers k).calls 1 = some (.send buf len) →
      SendResult len result file →
      ConnectionBuffers.system (s.buffers k) (.sent 1 result) = some (buffers, told) →
      next = (s.deliver ((s.buffers k).memory.load buf result.toNat) file).setSession k
        .finished buffers →
      events = told.map (.memory k) → Happens s next events action

theorem connects_of_connect {action' : Connections.Action}
    (here : action.ofConnections = some action')
    (ended : ∀ k, action' = .destroyConnection k → s.pc k = .finished)
    (step : connect s action' = some (next, events)) : Happens s next events action := by
  obtain ⟨⟨conns, told⟩, step', same⟩ := Option.map_eq_some_iff.mp step
  cases same
  exact .connects here ended step' rfl rfl

theorem happens_of_step (step : system s action = some (next, events)) :
    Happens s next events action := by
  cases action with
  | accept fd => exact connects_of_connect rfl (fun _ same => by cases same) step
  | destroySocket k => exact connects_of_connect rfl (fun _ same => by cases same) step
  | destroyConnection k =>
    rw [system] at step
    split at step
    · rename_i ended
      exact connects_of_connect rfl (fun _ same => by cases same; exact ended) step
    · cases step
  | arrive k bytes =>
    cases step
    exact .arrive rfl rfl rfl
  | resume k =>
    rw [system] at step
    split at step
    · rename_i connection pc live
      obtain ⟨⟨buffers, told⟩, step', same⟩ := Option.map_eq_some_iff.mp step
      cases same
      exact .resume rfl pc live step' rfl rfl
    · cases step
  | take k =>
    rw [system] at step
    split at step
    · rename_i fd pc
      cases step
      exact .takeRecv rfl pc rfl rfl
    · rename_i fd pc
      cases step
      exact .takeSend rfl pc rfl rfl
    · cases step
  | receive k result data =>
    rw [system] at step
    split at step
    · rename_i file connection pc live
      split at step
      · rename_i delivers
        split at step
        · rename_i filled told step'
          obtain ⟨⟨pc', replied, told'⟩, goesOn, same⟩ := Option.map_eq_some_iff.mp step
          cases same
          exact .receive rfl pc live delivers step' goesOn rfl rfl
        · cases step
      · cases step
    · cases step
  | transmit k result =>
    rw [system] at step
    split at step
    · rename_i file buf len pc call
      split at step
      · rename_i possible
        obtain ⟨⟨buffers, told⟩, step', same⟩ := Option.map_eq_some_iff.mp step
        cases same
        exact .transmit rfl pc call possible step' rfl rfl
      · cases step
    · cases step

/-! ### The buffers of every session -/

/-- What the buffers of a session are where its coroutine is. -/
def Waits (rubbish : ConnectionBuffers.Block → Nat → Byte) (b : ConnectionBuffers.State) :
    Pc → Prop
  | .created => b = ConnectionBuffers.start rubbish
  | .receiving _ => Receiving b
  | .sending _ => ∃ data, data ≠ [] ∧ Sending b data
  | .finished => b.memory.allocated (some 0) = defaultBufferCapacity

theorem Waits.room {rubbish : ConnectionBuffers.Block → Nat → Byte} {b : ConnectionBuffers.State}
    {pc : Pc} (waits : Waits rubbish b pc) :
    b.memory.allocated (some 0) = defaultBufferCapacity := by
  cases pc with
  | created =>
    rw [show b = _ from waits]
    exact ConnectionBuffers.placed_start.allocated .read
  | receiving operation => exact Receiving.room waits
  | sending operation =>
    obtain ⟨_, _, sending⟩ := waits
    exact sending.room
  | finished => exact waits

/-- All accesses go to the first block of a session, within its bounds. -/
structure Kept (rubbish : Nat → ConnectionBuffers.Block → Nat → Byte) (s : State)
    (trace : List Event) : Prop where
  waits : ∀ k, Waits (rubbish k) (s.buffers k) (s.pc k)
  touched : ∀ k buf count, .memory k (.touched buf count) ∈ trace →
    buf = some 0 ∧ count ≤ defaultBufferCapacity

/-- A session goes on. -/
theorem Kept.setSession (kept : Kept rubbish s trace) {k : Nat} {pc : Pc}
    {buffers : ConnectionBuffers.State} {told : List ConnectionBuffers.Event}
    (middle : State) (samePc : middle.pc = s.pc) (sameBuffers : middle.buffers = s.buffers)
    (waits : Waits (rubbish k) buffers pc)
    (within : ∀ buf count, .touched buf count ∈ told → buf = some 0 ∧
      count ≤ defaultBufferCapacity) :
    Kept rubbish (middle.setSession k pc buffers) (trace ++ told.map (.memory k)) := by
  refine ⟨fun j => ?_, fun j buf count member => ?_⟩
  · by_cases this : j = k
    · subst this
      rw [setSession_pc_self, setSession_buffers_self]
      exact waits
    · rw [setSession_pc_other _ _ _ _ this, setSession_buffers_other _ _ _ _ this, samePc,
        sameBuffers]
      exact kept.waits j
  · rcases List.mem_append.mp member with old | new
    · exact kept.touched j buf count old
    · obtain ⟨event, inside, same⟩ := List.mem_map.mp new
      cases same
      exact within buf count inside

/-- How a session goes on after `recv`. -/
theorem afterRecv_of_received {result : Int} {fd : Int} {data : List Byte} {pc : Pc}
    {filled replied : ConnectionBuffers.State} {told' : List ConnectionBuffers.Event}
    (received : 1 ≤ result → result = data.length ∧ Filled filled data)
    (goesOn : afterRecv result fd filled = some (pc, replied, told')) :
    (result < 1 ∧ pc = .finished ∧ replied = filled ∧ told' = []) ∨
      (1 ≤ result ∧ result = data.length ∧ pc = .sending (.prepared fd) ∧ Sending replied data ∧
        told' = [.touched (some 0) data.length]) := by
  rw [afterRecv] at goesOn
  split at goesOn
  · rename_i small
    cases goesOn
    exact Or.inl ⟨small, rfl, rfl, rfl⟩
  · rename_i large
    obtain ⟨counted, holds⟩ := received (by omega)
    obtain ⟨replied', executed, sending⟩ := reply_of_filled holds
    rw [executed] at goesOn
    cases goesOn
    exact Or.inr ⟨by omega, counted, rfl, sending, rfl⟩

theorem kept_of_happens (kept : Kept rubbish s trace) (happens : Happens s next events action) :
    Kept rubbish next (trace ++ events) := by
  cases happens with
  | connects _ _ _ same same' =>
    subst same same'
    refine ⟨kept.waits, fun k buf count member => ?_⟩
    rcases List.mem_append.mp member with old | new
    · exact kept.touched k buf count old
    · obtain ⟨_, _, same⟩ := List.mem_map.mp new
      cases same
  | arrive _ same same' =>
    subst same same'
    rw [List.append_nil]
    exact ⟨kept.waits, kept.touched⟩
  | @resume k connection buffers told _ pc live step same same' =>
    subst same same'
    have waits := kept.waits k
    rw [pc] at waits
    obtain ⟨b, step', receiving⟩ := recv_start (rubbish k)
    rw [show s.buffers k = _ from waits, step'] at step
    cases step
    exact kept.setSession s rfl rfl receiving fun _ _ member => absurd member List.not_mem_nil
  | @takeRecv k fd _ pc same same' =>
    subst same same'
    have waits : Waits (rubbish k) (s.buffers k) (.receiving (.taken (s.conns.table fd))) := by
      have before := kept.waits k
      rw [pc] at before
      exact before
    exact kept.setSession s rfl rfl waits fun _ _ member => absurd member List.not_mem_nil
  | @takeSend k fd _ pc same same' =>
    subst same same'
    have waits : Waits (rubbish k) (s.buffers k) (.sending (.taken (s.conns.table fd))) := by
      have before := kept.waits k
      rw [pc] at before
      exact before
    exact kept.setSession s rfl rfl waits fun _ _ member => absurd member List.not_mem_nil
  | @receive k result data file connection filled replied pc' told told' _ pc live _ step goesOn
      same same' =>
    subst same same'
    have waits := kept.waits k
    rw [pc] at waits
    obtain ⟨rfl, fits, room, received⟩ := received_of_receiving waits step
    have within (buf : Option ConnectionBuffers.Block) (count : Nat)
        (member : ConnectionBuffers.Event.touched buf count ∈
          [ConnectionBuffers.Event.touched (some 0) data.length]) :
        buf = some 0 ∧ count ≤ defaultBufferCapacity := by
      cases List.mem_singleton.mp member
      exact ⟨rfl, fits⟩
    rcases afterRecv_of_received received goesOn with ⟨_, rfl, rfl, rfl⟩ |
      ⟨positive, counted, rfl, sending, rfl⟩
    · refine kept.setSession _ (advance_pc _ _ _) (advance_buffers _ _ _) room ?_
      rw [List.append_nil]
      exact within
    · refine kept.setSession _ (advance_pc _ _ _) (advance_buffers _ _ _)
        ⟨data, ?_, sending⟩ fun buf count member => ?_
      · rintro rfl
        simp only [List.length_nil, Int.natCast_zero] at counted
        omega
      · exact (List.mem_append.mp member).elim (within buf count) (within buf count)
  | @transmit k len result file buf buffers told _ pc call possible step same same' =>
    subst same same'
    have waits := kept.waits k
    rw [pc] at waits
    obtain ⟨data, some, sending⟩ := waits
    obtain ⟨b', step', room⟩ := sent_of_sending sending result
    rw [step'] at step
    cases step
    refine kept.setSession _ (deliver_pc _ _ _) (deliver_buffers _ _ _) room
      fun buf count member => ?_
    cases List.mem_singleton.mp member
    exact ⟨rfl, sending.fits⟩

theorem kept_of_reaches
    (run : Transitions.Reaches system (start table rubbish) s trace) : Kept rubbish s trace :=
  run.invariant (Kept rubbish)
    ⟨fun _ => rfl, fun _ _ _ member => absurd member List.not_mem_nil⟩
    fun _ _ _ _ _ _ kept step => kept_of_happens kept (happens_of_step step)

/-! ### Whose bytes -/

/-- No number is given away between the two closes of the connection that had it. -/
def Spaced (s : State) (action : Action) : Prop :=
  ∀ action', action.ofConnections = some action' → Connections.Spaced s.conns action'

/-- The descriptors go through a run of their own. -/
theorem connections_of_reachesBy
    (run : Transitions.ReachesBy Spaced system (start table rubbish) s trace) :
    ∃ told, Transitions.ReachesBy Connections.Spaced Connections.system (Connections.start table)
      s.conns told := by
  refine run.invariant (fun s _ => ∃ told, Transitions.ReachesBy Connections.Spaced
    Connections.system (Connections.start table) s.conns told) ⟨[], .start⟩ ?_
  rintro s trace action next events _ ⟨told, run'⟩ spaced step
  cases happens_of_step step with
  | connects here _ step' same _ =>
    subst same
    exact ⟨_, .next run' (spaced _ here) step'⟩
  | arrive _ same _ =>
    subst same
    exact ⟨told, run'⟩
  | resume _ _ _ _ same _ | takeRecv _ _ same _ | takeSend _ _ same _ =>
    subst same
    exact ⟨told, run'⟩
  | receive _ _ _ _ _ _ same _ =>
    subst same
    exact ⟨told, by rw [State.setSession, advance_conns]; exact run'⟩
  | transmit _ _ _ _ _ same _ =>
    subst same
    exact ⟨told, by rw [State.setSession, deliver_conns]; exact run'⟩

/-- The operation of a session goes to its own connection. -/
def Operation.Names (k : Nat) (fd : Int) : Operation → Prop
  | .prepared fd' => fd' = fd
  | .taken file => file = some (.accepted k)

/-- The session awaits an operation on its own connection. -/
def Awaits (s : State) (k : Nat) (operation : Operation) : Prop :=
  ∃ connection, s.conns.session k = .live connection ∧ operation.Names k connection.getFd

/-- What a session has read is what its client has sent first, and its client gets nothing else. -/
def Own (s : State) (k : Nat) : Prop :=
  match s.pc k with
  | .created => s.read k = 0 ∧ s.got k = []
  | .receiving operation => Awaits s k operation ∧ s.read k = 0 ∧ s.got k = []
  | .sending operation => Awaits s k operation ∧ s.read k ≤ (s.sent k).length ∧ s.got k = [] ∧
      Sending (s.buffers k) ((s.sent k).take (s.read k))
  | .finished => s.read k ≤ defaultBufferCapacity ∧ s.read k ≤ (s.sent k).length ∧
      s.got k <+: (s.sent k).take (s.read k)

/-- A session that is let alone keeps what is its own. -/
theorem Own.frame {k : Nat} (own : Own s k) (pc : next.pc k = s.pc k)
    (buffers : next.buffers k = s.buffers k) (read : next.read k = s.read k)
    (got : next.got k = s.got k) (sent : s.sent k <+: next.sent k)
    (live : s.pc k ≠ .finished → ∀ connection, s.conns.session k = .live connection →
      next.conns.session k = .live connection) : Own next k := by
  have longer := sent.length_le
  have taken (few : s.read k ≤ (s.sent k).length) :
      (next.sent k).take (s.read k) = (s.sent k).take (s.read k) := by
    obtain ⟨more, same⟩ := sent
    rw [← same, List.take_append_of_le_length few]
  unfold Own at own ⊢
  rw [pc, read, got, buffers]
  cases here : s.pc k with
  | created =>
    rw [here] at own
    exact own
  | receiving operation =>
    rw [here] at own live
    obtain ⟨⟨connection, isLive, names⟩, rest⟩ := own
    exact ⟨⟨connection, live (fun same => by cases same) _ isLive, names⟩, rest⟩
  | sending operation =>
    rw [here] at own live
    obtain ⟨⟨connection, isLive, names⟩, few, none, sending⟩ := own
    exact ⟨⟨connection, live (fun same => by cases same) _ isLive, names⟩, few.trans longer, none,
      by rw [taken few]; exact sending⟩
  | finished =>
    rw [here] at own
    obtain ⟨fits, few, part⟩ := own
    exact ⟨fits, few.trans longer, by rw [taken few]; exact part⟩

/-- A connection lives until its session is done. -/
theorem live_of_connects {conns : Connections.State} {told : List Connections.Event}
    {action' : Connections.Action} (fresh : s.conns.session s.conns.count = .absent)
    (ended : ∀ k, action' = .destroyConnection k → s.pc k = .finished)
    (step : Connections.system s.conns action' = some (conns, told)) {k : Nat}
    (going : s.pc k ≠ .finished) {connection : Connections.Connection}
    (live : s.conns.session k = .live connection) : conns.session k = .live connection := by
  cases Connections.happens_of_step step with
  | accept _ _ same _ =>
    have different : k ≠ s.conns.count := by
      rintro rfl
      rw [fresh] at live
      cases live
    rw [same, Connections.State.accept,
      Connections.State.setSession_session_other _ _ _ different]
    exact live
  | @destroyConnection j _ _ same _ =>
    have different : k ≠ j := by
      rintro rfl
      exact going (ended k rfl)
    rw [same, Connections.State.setSession_session_other _ _ _ different]
    exact live
  | @destroySocket j _ bodyRun _ same _ =>
    have different : k ≠ j := by
      rintro rfl
      rw [bodyRun] at live
      cases live
    rw [same, Connections.State.setSession_session_other _ _ _ different]
    exact live
  | @destroyEmpty j _ bodyRun _ same _ =>
    have different : k ≠ j := by
      rintro rfl
      rw [bodyRun] at live
      cases live
    rw [same, Connections.State.setSession_session_other _ _ _ different]
    exact live

/-- What is loaded from the start of a message is a part of it. -/
theorem load_of_sending {b : ConnectionBuffers.State} {data : List Byte} (sending : Sending b data)
    {count : Nat} (few : count ≤ data.length) :
    b.memory.load (some 0) count = data.take count := by
  have holds : (b.memory 0).take data.length = data := sending.holds
  show (b.memory 0).take count = _
  rw [← holds, List.take_take, Nat.min_eq_left few]

/-- What a session sends goes to its own client, and is what the client has sent first. -/
theorem sends_of_own {k len : Nat} {result : Int} {file : Option Owner}
    {buf : Option ConnectionBuffers.Block} (own : Own s k) (pc : s.pc k = .sending (.taken file))
    (call : (s.buffers k).calls 1 = some (.send buf len)) (possible : SendResult len result file) :
    file = some (.accepted k) ∧ result ≤ s.read k ∧ s.read k ≤ defaultBufferCapacity ∧
      s.read k ≤ (s.sent k).length ∧ s.got k = [] ∧
      (s.buffers k).memory.load buf result.toNat = (s.sent k).take result.toNat := by
  rw [Own, pc] at own
  obtain ⟨⟨_, _, names⟩, few, nothing, sending⟩ := own
  obtain rfl : file = some (.accepted k) := names
  rw [sending.send] at call
  cases call
  have counted : ((s.sent k).take (s.read k)).length = s.read k := by
    rw [List.length_take, Nat.min_eq_left few]
  have bounds : -2 ^ 31 ≤ result ∧ result ≤ ((s.sent k).take (s.read k)).length := possible
  rw [counted] at bounds
  refine ⟨rfl, bounds.2, counted ▸ sending.fits, few, nothing, ?_⟩
  rw [load_of_sending sending (by omega), List.take_take, Nat.min_eq_left (by omega)]

theorem own_of_happens (owned : Connections.Owned s.conns)
    (fresh : s.conns.session s.conns.count = .absent) (kept : Kept rubbish s trace)
    (own : ∀ k, Own s k) (happens : Happens s next events action) : ∀ k, Own next k := by
  intro j
  cases happens with
  | connects _ ended step same _ =>
    subst same
    exact (own j).frame rfl rfl rfl rfl (List.prefix_refl _) fun going _ live =>
      live_of_connects fresh ended step going live
  | @arrive k bytes _ same _ =>
    subst same
    refine (own j).frame rfl rfl rfl rfl ?_ fun _ _ live => live
    show s.sent j <+: Function.update s.sent k (s.sent k ++ bytes) j
    by_cases this : j = k
    · subst this
      rw [Function.update_self]
      exact List.prefix_append _ _
    · rw [Function.update_of_ne this]
  | @resume k connection buffers told _ pc live step same _ =>
    subst same
    by_cases this : j = k
    · subst this
      have mine := own j
      rw [Own, pc] at mine
      rw [Own, setSession_pc_self]
      exact ⟨⟨connection, live, rfl⟩, mine⟩
    · exact (own j).frame (setSession_pc_other _ _ _ _ this) (setSession_buffers_other _ _ _ _ this)
        rfl rfl (List.prefix_refl _) fun _ _ live => live
  | @takeRecv k fd _ pc same _ =>
    subst same
    by_cases this : j = k
    · subst this
      have mine := own j
      rw [Own, pc] at mine
      obtain ⟨⟨connection, live, names⟩, rest⟩ := mine
      rw [Own, setSession_pc_self]
      refine ⟨⟨connection, live, ?_⟩, rest⟩
      rw [show fd = _ from names]
      exact owned j connection live
    · exact (own j).frame (setSession_pc_other _ _ _ _ this) (setSession_buffers_other _ _ _ _ this)
        rfl rfl (List.prefix_refl _) fun _ _ live => live
  | @takeSend k fd _ pc same _ =>
    subst same
    by_cases this : j = k
    · subst this
      have mine := own j
      rw [Own, pc] at mine
      obtain ⟨⟨connection, live, names⟩, few, none, sending⟩ := mine
      rw [Own, setSession_pc_self, setSession_buffers_self]
      refine ⟨⟨connection, live, ?_⟩, few, none, sending⟩
      rw [show fd = _ from names]
      exact owned j connection live
    · exact (own j).frame (setSession_pc_other _ _ _ _ this) (setSession_buffers_other _ _ _ _ this)
        rfl rfl (List.prefix_refl _) fun _ _ live => live
  | @receive k result data file connection filled replied pc' told told' _ pc live delivers step
      goesOn same _ =>
    subst same
    have mine := own k
    rw [Own, pc] at mine
    obtain ⟨⟨_, _, names⟩, none, nothing⟩ := mine
    obtain rfl : file = some (.accepted k) := names
    have starts : data <+: s.sent k := by
      have next : data <+: (s.sent k).drop (s.read k) := delivers
      rw [none, List.drop_zero] at next
      exact next
    have waits := kept.waits k
    rw [pc] at waits
    obtain ⟨_, fits, _, received⟩ := received_of_receiving waits step
    by_cases this : j = k
    · subst this
      have counted :
          ((s.advance data.length (some (.accepted j))).setSession j pc' replied).read j =
            data.length := by
        show Function.update s.read j (s.read j + data.length) j = _
        rw [Function.update_self, none, Nat.zero_add]
      rcases afterRecv_of_received received goesOn with ⟨_, rfl, _, _⟩ |
        ⟨_, _, rfl, sending, _⟩
      · rw [Own, setSession_pc_self, counted]
        refine ⟨fits, starts.length_le, ?_⟩
        show s.got j <+: _
        rw [nothing]
        exact List.nil_prefix
      · rw [Own, setSession_pc_self, setSession_buffers_self, counted]
        refine ⟨⟨connection, by rw [State.setSession, advance_conns]; exact live, rfl⟩,
          starts.length_le, nothing, ?_⟩
        show Sending replied ((s.sent j).take data.length)
        rw [← List.prefix_iff_eq_take.mp starts]
        exact sending
    · refine (own j).frame ?_ ?_ (Function.update_of_ne this ..) rfl (List.prefix_refl _)
        fun _ _ live => live
      · rw [setSession_pc_other _ _ _ _ this, advance_pc]
      · rw [setSession_buffers_other _ _ _ _ this, advance_buffers]
  | @transmit k len result file buf buffers told _ pc call possible step same _ =>
    subst same
    obtain ⟨rfl, within, fits, few, nothing, loaded⟩ := sends_of_own (own k) pc call possible
    by_cases this : j = k
    · subst this
      rw [Own, setSession_pc_self]
      refine ⟨fits, few, ?_⟩
      show Function.update s.got j (s.got j ++ _) j <+: (s.sent j).take (s.read j)
      rw [Function.update_self, nothing, List.nil_append, loaded]
      exact List.take_prefix_take_left (by omega)
    · refine (own j).frame ?_ ?_ rfl (Function.update_of_ne this ..) (List.prefix_refl _)
        fun _ _ live => live
      · rw [setSession_pc_other _ _ _ _ this, deliver_pc]
      · rw [setSession_buffers_other _ _ _ _ this, deliver_buffers]

theorem own_of_reachesBy
    (run : Transitions.ReachesBy Spaced system (start table rubbish) s trace) :
    ∀ k, Own s k := by
  refine run.invariant (fun s _ => ∀ k, Own s k) (fun _ => ⟨rfl, rfl⟩) ?_
  intro s trace action next events run own _ step
  obtain ⟨told, conns⟩ := connections_of_reachesBy run
  exact own_of_happens (Connections.spared_of_reachesBy conns).owned
    ((Connections.tracked_of_reaches conns.reaches).fresh _ (Nat.le_refl _))
    (kept_of_reaches run.reaches) own (happens_of_step step)

/-! ### A number that is given away too early -/

theorem resume_created {k : Nat} {connection : Connections.Connection} (pc : s.pc k = .created)
    (live : s.conns.session k = .live connection)
    (fresh : s.buffers k = ConnectionBuffers.start (rubbish k)) :
    ∃ b, system s (.resume k) =
        some (s.setSession k (.receiving (.prepared connection.getFd)) b, []) ∧ Receiving b := by
  obtain ⟨b, recv, receiving⟩ := recv_start (rubbish k)
  refine ⟨b, ?_, receiving⟩
  rw [system, pc, live]
  simp only [fresh, recv]
  rfl

theorem receive_taken {k j : Nat} {connection : Connections.Connection} {data : List Byte}
    (pc : s.pc k = .receiving (.taken (some (.accepted j))))
    (live : s.conns.session k = .live connection) (receiving : Receiving (s.buffers k))
    (delivers : data <+: (s.sent j).drop (s.read j)) (nonempty : data ≠ [])
    (fits : data.length ≤ defaultBufferCapacity) :
    ∃ b told, system s (.receive k data.length data) =
        some ((s.advance data.length (some (.accepted j))).setSession k
          (.sending (.prepared connection.getFd)) b, told) ∧ Sending b data := by
  have possible : ConnectionBuffers.RecvResult defaultBufferCapacity data.length data :=
    Or.inr ⟨rfl, fits⟩
  have filling : ∃ filled told, ConnectionBuffers.system (s.buffers k)
      (.received 0 data.length data) = some (filled, told) := by
    rw [ConnectionBuffers.system, receiving.recv]
    exact ⟨_, _, if_pos possible⟩
  obtain ⟨filled, told, filling⟩ := filling
  have positive : (1 : Int) ≤ data.length := by
    have longer := List.length_pos_iff.mpr nonempty
    omega
  obtain ⟨_, _, _, received⟩ := received_of_receiving receiving filling
  obtain ⟨b, executed, sending⟩ := reply_of_filled (received positive).2
  refine ⟨b, (told ++ [ConnectionBuffers.Event.touched (some 0) data.length]).map (.memory k), ?_,
    sending⟩
  rw [system, pc, live]
  simp only
  rw [if_pos (show s.Delivers data.length data (some (.accepted j)) from delivers), filling]
  simp only [afterRecv]
  rw [if_neg (by omega), executed]
  rfl

theorem transmit_taken {k j : Nat} {data : List Byte}
    (pc : s.pc k = .sending (.taken (some (.accepted j)))) (sending : Sending (s.buffers k) data) :
    ∃ b told, system s (.transmit k data.length) =
        some ((s.deliver data (some (.accepted j))).setSession k .finished b, told) := by
  obtain ⟨b, step, _⟩ := sent_of_sending sending data.length
  have possible : SendResult data.length data.length (some (.accepted j)) :=
    ⟨by omega, Int.le_refl _⟩
  refine ⟨b, [.memory k (.touched (some 0) data.length)], ?_⟩
  rw [system, pc, sending.send]
  simp only
  rw [if_pos possible, step, Int.toNat_natCast, sending.holds]
  rfl

/-- A connection that has been accepted stays so. -/
theorem absent_of_connects {conns conns' : Connections.State} {told : List Connections.Event}
    {action' : Connections.Action}
    (step : Connections.system conns action' = some (conns', told)) {k : Nat}
    (absent : conns'.session k = .absent) : conns.session k = .absent := by
  have other {middle : Connections.State} {j : Nat} {session : Connections.Session}
      (some : session ≠ .absent) (same : middle.session = conns.session)
      (absent : (middle.setSession j session).session k = .absent) :
      conns.session k = .absent := by
    by_cases this : k = j
    · subst this
      rw [Connections.State.setSession_session_self] at absent
      exact absurd absent some
    · rw [Connections.State.setSession_session_other _ _ _ this, same] at absent
      exact absent
  cases Connections.happens_of_step step with
  | accept _ _ same _ =>
    rw [same, Connections.State.accept] at absent
    refine other ?_ rfl absent
    rw [Connections.serve]
    split
    · exact fun same => by cases same
    · exact fun same => by cases same
  | destroyConnection _ same _ =>
    rw [same] at absent
    exact other (fun same => by cases same) rfl absent
  | destroySocket _ _ same _ =>
    rw [same] at absent
    exact other (fun same => by cases same) rfl absent
  | destroyEmpty _ _ same _ =>
    rw [same] at absent
    exact other (fun same => by cases same) rfl absent

/-- A session whose connection has not been accepted yet is as it was made. -/
theorem created_of_absent
    (run : Transitions.Reaches system (start table rubbish) s trace) :
    ∀ k, s.conns.session k = .absent → s.pc k = .created := by
  refine run.invariant (fun s _ => ∀ k, s.conns.session k = .absent → s.pc k = .created)
    (fun _ _ => rfl) ?_
  intro s trace action next events _ created step k absent
  have still {pc : Pc} {b : ConnectionBuffers.State} {j : Nat} (middle : State)
      (samePc : middle.pc = s.pc) (was : s.pc j ≠ .created) (absent : s.conns.session k = .absent) :
      (middle.setSession j pc b).pc k = .created := by
    have different : k ≠ j := by
      rintro rfl
      exact was (created k absent)
    rw [setSession_pc_other _ _ _ _ different, samePc]
    exact created k absent
  cases happens_of_step step with
  | @connects action' conns told _ _ step' same _ =>
    subst same
    exact created k (absent_of_connects step' absent)
  | arrive _ same _ =>
    subst same
    exact created k absent
  | @resume j connection _ _ _ pc live _ same _ =>
    subst same
    have different : k ≠ j := by
      rintro rfl
      rw [show s.conns.session k = _ from absent] at live
      cases live
    rw [setSession_pc_other _ _ _ _ different]
    exact created k absent
  | takeRecv _ pc same _ | takeSend _ pc same _ =>
    subst same
    exact still s rfl (by rw [pc]; exact fun same => by cases same) absent
  | receive _ pc _ _ _ _ same _ =>
    subst same
    rw [State.setSession, advance_conns] at absent
    exact still _ (advance_pc _ _ _) (by rw [pc]; exact fun same => by cases same) absent
  | transmit _ pc _ _ _ same _ =>
    subst same
    rw [State.setSession, deliver_conns] at absent
    exact still _ (deliver_pc _ _ _) (by rw [pc]; exact fun same => by cases same) absent

/-- A session that has just been made can read what its client sends, and begin to answer. -/
theorem begins_answer {k : Nat} {connection : Connections.Connection} {bytes data : List Byte}
    (pc : s.pc k = .created) (live : s.conns.session k = .live connection)
    (fresh : s.buffers k = ConnectionBuffers.start (rubbish k)) (none : s.read k = 0)
    (owner : s.conns.table connection.getFd = some (.accepted k))
    (starts : data <+: s.sent k ++ bytes) (nonempty : data ≠ [])
    (fits : data.length ≤ defaultBufferCapacity) :
    ∃ later told, Transitions.Reaches system s later told ∧ later.conns = s.conns ∧
      later.pc k = .sending (.prepared connection.getFd) ∧ Sending (later.buffers k) data ∧
      later.got = s.got ∧ ∀ j, j ≠ k → later.sent j = s.sent j := by
  let arrived : State := { s with sent := Function.update s.sent k (s.sent k ++ bytes) }
  have arrives : system s (.arrive k bytes) = some (arrived, []) := rfl
  obtain ⟨b, resumed, receiving⟩ := resume_created (s := arrived) pc live fresh
  let asked := arrived.setSession k (.receiving (.prepared connection.getFd)) b
  let taken := asked.setSession k (.receiving (.taken (some (.accepted k)))) b
  have takes : system asked (.take k) = some (taken, []) := by
    rw [system, setSession_pc_self]
    simp only
    rw [show asked.conns.table connection.getFd = _ from owner, setSession_buffers_self]
  have delivers : data <+: (taken.sent k).drop (taken.read k) := by
    show data <+: (Function.update s.sent k (s.sent k ++ bytes) k).drop (s.read k)
    rw [Function.update_self, none, List.drop_zero]
    exact starts
  obtain ⟨b', told, received, sending⟩ := receive_taken (s := taken) (setSession_pc_self _ _ _ _)
    live (by rw [setSession_buffers_self]; exact receiving) delivers nonempty fits
  refine ⟨_, _, .next (.next (.next (.next .start arrives) resumed) takes) received, rfl,
    setSession_pc_self _ _ _ _, by rw [setSession_buffers_self]; exact sending, rfl,
    fun j different => ?_⟩
  exact Function.update_of_ne different ..

/-- When the number of its descriptor is taken away and given to a new connection, the answer goes
to the new client. -/
theorem answers_stranger {j k : Nat} {connection : Connections.Connection} {data : List Byte}
    (bodyRun : s.conns.session j = .bodyRun connection) (positive : 1 ≤ connection.getFd)
    (pc : s.pc k = .sending (.prepared connection.getFd)) (sending : Sending (s.buffers k) data) :
    ∃ later told, Transitions.Reaches system s later told ∧
      later.got s.conns.count = s.got s.conns.count ++ data ∧ later.sent = s.sent := by
  let closed : State := { s with
    conns := (s.conns.close connection.getFd).setSession j .destroyed }
  have closes : system s (.destroySocket j) = some (closed, [.connection (.closed j
      connection.getFd (s.conns.table connection.getFd))]) := by
    have present : connection.sock.fd ≠ -1 := by
      rw [Connections.Connection.getFd] at positive
      omega
    rw [system, connect, Connections.system, bodyRun]
    simp only
    rw [if_pos present]
    rfl
  let reused : State := { closed with conns := closed.conns.accept connection.getFd }
  have accepts : system closed (.accept connection.getFd) =
      some (reused, [.connection (.accepted closed.conns.count connection.getFd)]) := by
    have free : closed.conns.table connection.getFd = none := Function.update_self ..
    rw [system, connect, Connections.system, if_pos ⟨by omega, free⟩]
    rfl
  let taken := reused.setSession k (.sending (.taken (some (.accepted s.conns.count))))
    (s.buffers k)
  have takes : system reused (.take k) = some (taken, []) := by
    have owner : reused.conns.table connection.getFd = some (.accepted s.conns.count) :=
      Function.update_self ..
    rw [system, show reused.pc k = _ from pc]
    simp only
    rw [owner]
  obtain ⟨b, told, transmits⟩ := transmit_taken (s := taken) (setSession_pc_self _ _ _ _)
    (by rw [setSession_buffers_self]; exact sending)
  refine ⟨_, _, .next (.next (.next (.next .start closes) accepts) takes) transmits, ?_, rfl⟩
  exact Function.update_self ..

/-! ### Echoes -/

/-- Whose bytes the clients get, from any table of open descriptors and any contents of memory. -/
structure Echoes (table : Int → Option Owner)
    (rubbish : Nat → ConnectionBuffers.Block → Nat → Byte) : Prop where
  /-- In all runs the buffers are touched within their bounds. -/
  inBounds : ∀ s trace, Transitions.Reaches system (start table rubbish) s trace →
    ∀ k buf count, .memory k (.touched buf count) ∈ trace →
      count ≤ (s.buffers k).memory.allocated buf
  /-- While no number is given away too early, every client has got back what it has sent first, at
  most as much as its session has read, and nothing else. -/
  echoed : ∀ s trace, Transitions.ReachesBy Spaced system (start table rubbish) s trace →
    ∀ k, s.got k <+: s.sent k ∧ (s.got k).length ≤ defaultBufferCapacity ∧
      (s.got k ≠ [] → s.pc k = .finished)
  /-- A session answers once, with as many of the bytes it has read as the kernel sends. -/
  answered : ∀ s trace k result next events,
    Transitions.ReachesBy Spaced system (start table rubbish) s trace →
    system s (.transmit k result) = some (next, events) →
    s.got k = [] ∧ result ≤ s.read k ∧ next.got k = (s.sent k).take result.toNat
  /-- Where a number is given away too early, what the new client sends can go to the next one. -/
  leaked : ∀ s trace j connection next events,
    Transitions.ReachesBy Spaced system (start table rubbish) s trace →
    s.conns.session j = .bodyRun connection →
    system s (.accept connection.getFd) = some (next, events) →
    ∀ bytes data, data <+: s.sent s.conns.count ++ bytes → data ≠ [] →
      data.length ≤ defaultBufferCapacity →
      ∃ later told, Transitions.Reaches system next later told ∧
        later.got (s.conns.count + 1) = data ∧
        later.sent (s.conns.count + 1) = s.sent (s.conns.count + 1)

/-- A session that has not been resumed has read nothing, and its client has got nothing. -/
theorem quiet_of_absent
    (run : Transitions.ReachesBy Spaced system (start table rubbish) s trace) {k : Nat}
    (absent : s.conns.session k = .absent) : s.pc k = .created ∧
      s.buffers k = ConnectionBuffers.start (rubbish k) ∧ s.read k = 0 ∧ s.got k = [] := by
  have pc := created_of_absent run.reaches k absent
  have waits := (kept_of_reaches run.reaches).waits k
  have own := own_of_reachesBy run k
  rw [pc] at waits
  rw [Own, pc] at own
  exact ⟨pc, waits, own⟩

theorem echoes (table : Int → Option Owner)
    (rubbish : Nat → ConnectionBuffers.Block → Nat → Byte) : Echoes table rubbish where
  inBounds s trace run k buf count member := by
    have kept := kept_of_reaches run
    obtain ⟨rfl, fits⟩ := kept.touched k buf count member
    rw [(kept.waits k).room]
    exact fits
  echoed s trace run k := by
    have own := own_of_reachesBy run k
    rw [Own] at own
    cases pc : s.pc k with
    | created =>
      rw [pc] at own
      rw [own.2]
      exact ⟨List.nil_prefix, Nat.zero_le _, fun some => absurd rfl some⟩
    | receiving operation =>
      rw [pc] at own
      rw [own.2.2]
      exact ⟨List.nil_prefix, Nat.zero_le _, fun some => absurd rfl some⟩
    | sending operation =>
      rw [pc] at own
      rw [own.2.2.1]
      exact ⟨List.nil_prefix, Nat.zero_le _, fun some => absurd rfl some⟩
    | finished =>
      rw [pc] at own
      obtain ⟨fits, few, part⟩ := own
      have short := part.length_le
      rw [List.length_take] at short
      exact ⟨part.trans (List.take_prefix _ _), by omega, fun _ => rfl⟩
  answered s trace k result next events run step := by
    have own := own_of_reachesBy run k
    cases happens_of_step step with
    | transmit here pc call possible _ same _ =>
      cases here
      subst same
      obtain ⟨rfl, within, _, _, nothing, loaded⟩ := sends_of_own own pc call possible
      refine ⟨nothing, within, ?_⟩
      show Function.update s.got k (s.got k ++ _) k = _
      rw [Function.update_self, nothing, List.nil_append, loaded]
    | connects here => cases here
    | arrive here => cases here
    | resume here => cases here
    | takeRecv here => cases here
    | takeSend here => cases here
    | receive here => cases here
  leaked s trace j connection next events run bodyRun step bytes data starts nonempty fits := by
    obtain ⟨told, conns⟩ := connections_of_reachesBy run
    have tracked := Connections.tracked_of_reaches conns.reaches
    have positive := tracked.positive j connection (by rw [bodyRun]; rfl)
    obtain ⟨pc, fresh, none, _⟩ := quiet_of_absent run (tracked.fresh _ (Nat.le_refl _))
    obtain ⟨_, _, _, nothing⟩ := quiet_of_absent run (tracked.fresh _ (Nat.le_succ _))
    have different : j ≠ s.conns.count := by
      rintro rfl
      rw [tracked.fresh _ (Nat.le_refl _)] at bodyRun
      cases bodyRun
    cases happens_of_step step with
    | @connects action' conns' told' here _ step' same _ =>
      cases here
      cases Connections.happens_of_step step' with
      | accept _ _ same' _ =>
        subst same'
        subst same
        have live : (s.conns.accept connection.getFd).session s.conns.count =
            .live connection := by
          rw [Connections.State.accept, Connections.State.setSession_session_self,
            Connections.serve, if_neg (by omega)]
          rfl
        obtain ⟨middle, told₁, first, sameConns, pc', sending, sameGot, sameSent⟩ :=
          begins_answer (s := { s with conns := s.conns.accept connection.getFd }) pc live fresh
            none (Function.update_self ..) starts nonempty fits
        have still : middle.conns.session j = .bodyRun connection := by
          rw [sameConns, Connections.State.accept,
            Connections.State.setSession_session_other _ _ _ different]
          exact bodyRun
        have counted : middle.conns.count = s.conns.count + 1 := by rw [sameConns]; rfl
        obtain ⟨later, told₂, second, gets, sameSent'⟩ :=
          answers_stranger still positive pc' sending
        rw [counted, sameGot] at gets
        refine ⟨later, _, first.trans second, ?_, ?_⟩
        · rw [gets, show State.got _ (s.conns.count + 1) = _ from nothing, List.nil_append]
        · rw [sameSent', sameSent _ (Nat.succ_ne_self _)]
    | arrive here => cases here
    | resume here => cases here
    | takeRecv here => cases here
    | takeSend here => cases here
    | receive here => cases here
    | transmit here => cases here

end EchoServer

end Sheep
