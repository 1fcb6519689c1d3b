/-
This file models the two buffers of a `Connection`. A `Buffer` is a block of memory
with a size and a capacity of its own; `swap` and the move assignment exchange all
three. `Connection::recv` and `Connection::send` hand a block to the kernel and are
awaited, so that anything can happen to the buffers before they complete.
-/

import Mathlib.Logic.Function.Basic
import Sheep.Bytes
import Sheep.Transitions

namespace Sheep

namespace ConnectionBuffers

/-! ### Memory -/

/-- Blocks that have been allocated are numbered. -/
abbrev Block := Nat

/-- The bytes of every block. -/
abbrev Memory := Block → List Byte

namespace Memory

/-- How many bytes lie behind a pointer. None lie behind a null pointer. -/
def allocated (memory : Memory) : Option Block → Nat
  | none => 0
  | some block => (memory block).length

/-- Write bytes to the start of a block. What would lie behind its end is lost. -/
def store (memory : Memory) (buf : Option Block) (bytes : List Byte) : Memory :=
  match buf with
  | none => memory
  | some block => Function.update memory block
      ((bytes ++ (memory block).drop bytes.length).take (memory block).length)

/-- Read bytes from the start of a block. -/
def load (memory : Memory) (buf : Option Block) (count : Nat) : List Byte :=
  match buf with
  | none => []
  | some block => (memory block).take count

/-- Writing allocates nothing. -/
@[simp] theorem allocated_store (memory : Memory) (buf other : Option Block) (bytes : List Byte) :
    (memory.store buf bytes).allocated other = memory.allocated other := by
  cases buf with
  | none => rfl
  | some block =>
    cases other with
    | none => rfl
    | some block' =>
      by_cases same : block' = block
      · subst same
        simp only [allocated, store, Function.update_self, List.length_take, List.length_append,
          List.length_drop]
        omega
      · simp only [allocated, store, Function.update_of_ne same]

/-- What has been written can be read, if there is room for it. -/
theorem load_store (memory : Memory) {buf : Option Block} {bytes : List Byte}
    (room : bytes.length ≤ memory.allocated buf) :
    (memory.store buf bytes).load buf bytes.length = bytes := by
  cases buf with
  | none => exact (List.eq_nil_of_length_eq_zero (Nat.le_zero.mp room)).symm
  | some block =>
    have fits : bytes.length ≤ (memory block).length := room
    simp only [load, store, Function.update_self, List.take_take]
    rw [Nat.min_eq_left fits, List.take_left]

end Memory

/-! ### Buffers -/

/-- `kDEFAULT_BUFFER_CAPACITY`. -/
def defaultBufferCapacity : Nat := 1024

structure Buffer where
  buf : Option Block
  size : Nat
  capacity : Nat
deriving DecidableEq, Repr

inductive Event
  /-- The first bytes behind a pointer are read or written. -/
  | touched (buf : Option Block) (count : Nat)
deriving DecidableEq, Repr

/-- An `int` that is passed for a `std::size_t`. -/
def sizeOfInt (value : Int) : Nat := (value % 2 ^ 64).toNat

namespace Buffer

/-- `set_size`. -/
def setSize (buffer : Buffer) (written : Nat) : Buffer := { buffer with size := written }

/-- `clear` leaves the size as it is. -/
def clear (buffer : Buffer) (memory : Memory) : Memory × List Event :=
  if buffer.size ≠ 0 then
    (memory.store buffer.buf (List.replicate buffer.size 0), [.touched buffer.buf buffer.size])
  else (memory, [])

def write (buffer : Buffer) (memory : Memory) (data : List Byte) :
    Buffer × Memory × List Event :=
  let cleared := buffer.clear memory
  (buffer.setSize data.length, cleared.1.store buffer.buf data,
    cleared.2 ++ [.touched buffer.buf data.length])

/-- `to_string`, with the bytes its reader gets. -/
def toString (buffer : Buffer) (memory : Memory) : List Byte × List Event :=
  (memory.load buffer.buf buffer.size, [.touched buffer.buf buffer.size])

@[simp] theorem allocated_clear (buffer : Buffer) (memory : Memory) (buf : Option Block) :
    (buffer.clear memory).1.allocated buf = memory.allocated buf := by
  unfold clear
  split
  · exact memory.allocated_store _ _ _
  · rfl

/-- What has been written is what `to_string` returns. -/
theorem toString_write (buffer : Buffer) (memory : Memory) {data : List Byte}
    (room : data.length ≤ memory.allocated buffer.buf) :
    ((buffer.write memory data).1.toString (buffer.write memory data).2.1).1 = data :=
  Memory.load_store _ (by rw [allocated_clear]; exact room)

end Buffer

/-! ### A connection -/

inductive Which
  | read
  | write
deriving DecidableEq, Repr

/-- What an awaited call has passed to the kernel. -/
inductive Call
  | recv (buf : Option Block) (len : Nat)
  | send (buf : Option Block) (len : Nat)
deriving DecidableEq, Repr

/-- The buffers of a connection, the memory they lie in, and the calls that are awaited. -/
structure State where
  memory : Memory
  readBuf : Buffer
  writeBuf : Buffer
  calls : Nat → Option Call

inductive Action
  /-- `recv` up to its `co_await`. -/
  | recv (k : Nat)
  /-- The kernel completes a call of `recv`, with the bytes it has written. -/
  | received (k : Nat) (result : Int) (data : List Byte)
  | send (k : Nat)
  | sent (k : Nat) (result : Int)
  | swap (first second : Which)
  | moveAssign (target source : Which)
  | write (which : Which) (data : List Byte)
  | toString (which : Which)
deriving DecidableEq, Repr

/-- Both buffers have been allocated, and hold whatever was there. -/
def start (rubbish : Block → Nat → Byte) : State where
  memory block :=
    if block < 2 then (List.range defaultBufferCapacity).map (rubbish block) else []
  readBuf := ⟨some 0, 0, defaultBufferCapacity⟩
  writeBuf := ⟨some 1, 0, defaultBufferCapacity⟩
  calls _ := none

/-- Both blocks have the default capacity. -/
theorem length_memory_start (rubbish : Block → Nat → Byte) {block : Block} (allocated : block < 2) :
    ((start rubbish).memory block).length = defaultBufferCapacity := by
  have same : (start rubbish).memory block =
      (List.range defaultBufferCapacity).map (rubbish block) := if_pos allocated
  rw [same, List.length_map, List.length_range]

namespace State

def buffer (s : State) : Which → Buffer
  | .read => s.readBuf
  | .write => s.writeBuf

def setBuffer (s : State) (buffer : Buffer) : Which → State
  | .read => { s with readBuf := buffer }
  | .write => { s with writeBuf := buffer }

def setCall (s : State) (k : Nat) (call : Option Call) : State :=
  { s with calls := Function.update s.calls k call }

@[simp] theorem setCall_calls_self (s : State) (k : Nat) (call : Option Call) :
    (s.setCall k call).calls k = call := Function.update_self ..

theorem setCall_calls_other (s : State) {k other : Nat} (call : Option Call)
    (different : other ≠ k) : (s.setCall k call).calls other = s.calls other :=
  Function.update_of_ne different ..

/-- `swap` exchanges the three fields. So does the move assignment, unless a buffer is assigned to
itself. -/
def exchange (s : State) (first second : Which) : State :=
  (s.setBuffer (s.buffer second) first).setBuffer (s.buffer first) second

end State

/-- The results a call of `recv` completes with: a negative error number, or the number of bytes
that have been written. -/
def RecvResult (len : Nat) (result : Int) (data : List Byte) : Prop :=
  (-2 ^ 31 ≤ result ∧ result < 0 ∧ data = []) ∨ (result = data.length ∧ data.length ≤ len)

instance (len : Nat) (result : Int) (data : List Byte) :
    Decidable (RecvResult len result data) := by
  unfold RecvResult
  infer_instance

/-- Calls are made and completed, and the buffers used, in any order. -/
def system : Transitions.System State Action Event
  | s, .recv k =>
      if s.calls k = none then
        let cleared := s.readBuf.clear s.memory
        some ({ s with memory := cleared.1 }.setCall k
          (some (.recv s.readBuf.buf s.readBuf.capacity)), cleared.2)
      else none
  | s, .received k result data =>
      match s.calls k with
      | some (.recv buf len) =>
          if RecvResult len result data then
            some ({ s with
              memory := s.memory.store buf data
              readBuf := s.readBuf.setSize (sizeOfInt result) }.setCall k none,
              [.touched buf data.length])
          else none
      | _ => none
  | s, .send k =>
      if s.calls k = none then
        some (s.setCall k (some (.send s.writeBuf.buf s.writeBuf.size)), [])
      else none
  | s, .sent k _ =>
      match s.calls k with
      | some (.send buf len) => some (s.setCall k none, [.touched buf len])
      | _ => none
  | s, .swap first second => some (s.exchange first second, [])
  | s, .moveAssign target source =>
      some (if target = source then s else s.exchange target source, [])
  | s, .write which data =>
      if data.length ≤ (s.buffer which).capacity then
        let written := (s.buffer which).write s.memory data
        some ({ s with memory := written.2.1 }.setBuffer written.1 which, written.2.2)
      else none
  | s, .toString which => some (s, ((s.buffer which).toString s.memory).2)

end ConnectionBuffers

end Sheep
