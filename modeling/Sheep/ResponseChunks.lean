/-
This file states the grammar of chunked bodies and proves how the parser goes
through them. The size of a chunk is converted with a function that throws from
`2 ^ 31` on, and the data of a chunk is taken at once, in the turn that reads its
first byte.
-/

import Sheep.ResponseGrammar

namespace Sheep

open ScanLoop

namespace ResponseParser

/-! ### The grammar -/

/-- A chunk: its size in hexadecimal digits, and its data. -/
structure ChunkText where
  digits : List Byte
  data : List Byte
deriving DecidableEq, Repr

namespace ChunkText

def bytes (chunk : ChunkText) : List Byte :=
  (chunk.digits ++ crlf) ++ (chunk.data ++ crlf)

structure WellFormed (chunk : ChunkText) : Prop where
  digits : Token (isHexChar · = true) (isHexChar · = true) chunk.digits
  size : hexValue chunk.digits = chunk.data.length
  nonempty : chunk.data ≠ []

end ChunkText

def chunkBytes (chunks : List ChunkText) : List Byte := chunks.flatMap ChunkText.bytes

theorem chunkBytes_cons (chunk : ChunkText) (chunks : List ChunkText) :
    chunkBytes (chunk :: chunks) = chunk.bytes ++ chunkBytes chunks := rfl

theorem chunkBytes_snoc (chunks : List ChunkText) (chunk : ChunkText) :
    chunkBytes (chunks ++ [chunk]) = chunkBytes chunks ++ chunk.bytes := by
  simp [chunkBytes]

/-- A stored chunk holds a chunk. -/
structure ChunkRead (before : List Byte) (stored : Response.Chunk) (chunk : ChunkText) :
    Prop where
  size : stored.size = chunk.data.length
  data : stored.data.text before = some chunk.data

theorem ChunkRead.append {before : List Byte} {stored : Response.Chunk} {chunk : ChunkText}
    (read : ChunkRead before stored chunk) (more : List Byte) :
    ChunkRead (before ++ more) stored chunk :=
  ⟨read.size, StringView.text_append read.data more⟩

/-! ### Sizes -/

variable (after before : List Byte) {l : Locals}

theorem runs_chunkDigits {digits : List Byte} (state : l.state = .newChunkStart)
    (good : Token (isHexChar · = true) (isHexChar · = true) digits) :
    Runs (turn after) before digits l fun _ l' =>
      l' = { l with state := .chunkDataSize, prevIt := before.length } := by
  refine good.runs _ ?_ ?_ rfl
  · intro symbol ahead hex
    simp [turn, state, hex]
  · intro symbol before' ahead hex
    simp [turn, hex]

/-- What the parser makes of the digits of a size. -/
theorem stoi16_size {digits : List Byte}
    (good : Token (isHexChar · = true) (isHexChar · = true) digits) (ahead : List Byte) :
    stoi16 ((before ++ digits ++ CR :: ahead ++ after).drop (before.length : Int).toNat) =
      if hexValue digits < 2 ^ 31 then some (hexValue digits : Int) else none := by
  have shape : before ++ digits ++ CR :: ahead ++ after =
      before ++ (digits ++ CR :: (ahead ++ after)) := by simp
  rw [shape, Int.toNat_natCast, List.drop_left]
  exact stoi16_digits good.ne_nil good.forall_mem (by decide) (by decide)

/-- A size the parser can hold goes through, up to the carriage return. -/
theorem runs_size {digits : List Byte} (state : l.state = .newChunkStart)
    (good : Token (isHexChar · = true) (isHexChar · = true) digits)
    (small : hexValue digits < 2 ^ 31) :
    Runs (turn after) before (digits ++ [CR]) l fun _ l' => l' = { l with
      state := if hexValue digits ≠ 0 then .chunkDataSizeR else .zeroChunkSizeR
      prevIt := before.length
      newChunkSize := hexValue digits } := by
  refine Runs.append (runs_chunkDigits after before state good) ?_
  rintro _ rfl
  refine runs_cons fun ahead => ?_
  have notHex : isHexChar CR = false := by decide
  rw [turn]
  simp only [notHex, Bool.false_eq_true, if_false, if_true, stoi16_size after before good,
    if_pos small]
  by_cases zero : hexValue digits = 0
  · simp only [zero, Int.natCast_zero, ne_eq, not_true_eq_false, if_false, onward_go]
    exact runs_nil rfl
  · have notZero : (hexValue digits : Int) ≠ 0 := Int.natCast_ne_zero.mpr zero
    simp only [ne_eq, notZero, zero, not_false_eq_true, if_true, onward_go]
    exact runs_nil rfl

/-- A size the parser cannot hold is thrown at the carriage return. -/
theorem feed_hugeSize {digits rest ahead : List Byte} (state : l.state = .newChunkStart)
    (good : Token (isHexChar · = true) (isHexChar · = true) digits)
    (huge : 2 ^ 31 ≤ hexValue digits) :
    feed (turn after) before (digits ++ CR :: rest) ahead 0 l = .left (.threw l.res) := by
  obtain ⟨_, inside, rfl⟩ := (runs_chunkDigits after before state good).feed (CR :: rest ++ ahead)
  have notHex : isHexChar CR = false := by decide
  have notSmall : ¬ hexValue digits < 2 ^ 31 := not_lt.mpr huge
  rw [feed_append_of_inside inside]
  have thrown : turn after (before ++ digits) CR (rest ++ ahead)
      { l with state := .chunkDataSize, prevIt := before.length } = .leave (.threw l.res) := by
    rw [turn]
    simp only [notHex, Bool.false_eq_true, if_false, if_true, stoi16_size after before good,
      if_neg notSmall]
  exact feed_cons_leave thrown

/-- The size line of a chunk that is not the last. -/
theorem runs_sizeLine {digits : List Byte} (state : l.state = .newChunkStart)
    (good : Token (isHexChar · = true) (isHexChar · = true) digits)
    (small : hexValue digits < 2 ^ 31) (positive : hexValue digits ≠ 0) :
    Runs (turn after) before (digits ++ crlf) l fun _ l' => l' = { l with
      state := .chunkDataSizeRn
      prevIt := before.length
      newChunkSize := hexValue digits } := by
  have shape : digits ++ crlf = (digits ++ [CR]) ++ [LF] := by simp
  rw [shape]
  refine Runs.append (runs_size after before state good small) ?_
  rintro _ rfl
  refine runs_cons fun ahead => ?_
  simp only [ne_eq, positive, not_false_eq_true, if_true, turn, onward_go]
  exact runs_nil rfl

/-! ### Data -/

theorem runs_chunkEnd (state : l.state = .chunkDataEnd) :
    Runs (turn after) before crlf l fun _ l' => l' = { l with state := .newChunkStart } := by
  refine runs_cons fun ahead => ?_
  simp only [turn, state, if_true, onward_go]
  refine runs_cons fun ahead => ?_
  simp only [turn, if_true, onward_go]
  exact runs_nil rfl

/-- The data of a chunk is taken at its first byte and jumped over. The carriage return after it
makes sure that enough bytes are left. -/
theorem feed_chunkData {data : List Byte} (ahead : List Byte) (nonempty : data ≠ [])
    (state : l.state = .chunkDataSizeRn) (size : l.newChunkSize = data.length) :
    ∃ stored l', feed (turn after) before (data ++ crlf) ahead 0 l = .inside 0 l' ∧
      l'.state = .newChunkStart ∧
      l'.res = { l.res with chunks := l.res.chunks ++ [stored] } ∧
      stored.size = data.length ∧ stored.data.text (before ++ data) = some data := by
  obtain ⟨first, rest, rfl⟩ := List.exists_cons_of_ne_nil nonempty
  have enough : (((rest ++ crlf ++ ahead).length : Int) + 1) > l.newChunkSize := by
    rw [size]
    simp only [List.length_append, List.length_cons, List.length_nil]
    omega
  have count : (l.newChunkSize - 1).toNat = rest.length := by
    rw [size, List.length_cons]
    omega
  obtain ⟨next, isNext⟩ : ∃ next : Locals, next = { l with
    state := .chunkDataEnd
    res := { l.res with chunks := l.res.chunks ++
      [⟨l.newChunkSize, .range before.length (before.length + l.newChunkSize)⟩] } } := ⟨_, rfl⟩
  have taken : turn after before first (rest ++ crlf ++ ahead) l =
      .jump rest.length next [.range before.length (before.length + l.newChunkSize)] := by
    rw [turn, isNext]
    simp only [state, takeChunk]
    rw [if_pos enough, count]
  obtain ⟨_, ended, rfl⟩ := (runs_chunkEnd after (before ++ [first] ++ rest)
    (by rw [isNext] : next.state = .chunkDataEnd)).feed ahead
  refine ⟨⟨l.newChunkSize, .range before.length (before.length + l.newChunkSize)⟩,
    { next with state := .newChunkStart }, ?_, rfl, by rw [isNext], size, ?_⟩
  · rw [List.cons_append, feed_cons_jump taken, feed_skip, ended]
  · refine StringView.text_range before (first :: rest) [] (by simp) rfl ?_
    rw [size, List.length_append]
    omega

/-- One chunk goes through and is stored. -/
theorem feed_chunk {chunk : ChunkText} (ahead : List Byte) (good : chunk.WellFormed)
    (small : chunk.data.length < 2 ^ 31) (state : l.state = .newChunkStart) :
    ∃ stored l', feed (turn after) before chunk.bytes ahead 0 l = .inside 0 l' ∧
      l'.state = .newChunkStart ∧
      l'.res = { l.res with chunks := l.res.chunks ++ [stored] } ∧
      ChunkRead (before ++ chunk.bytes) stored chunk := by
  have positive : hexValue chunk.digits ≠ 0 := by
    rw [good.size]
    exact fun zero => good.nonempty (List.length_eq_zero_iff.mp zero)
  obtain ⟨_, sized, rfl⟩ := (runs_sizeLine after before state good.digits
    (by rw [good.size]; exact small) positive).feed (chunk.data ++ crlf ++ ahead)
  obtain ⟨stored, l', inside, state', res, size, text⟩ := feed_chunkData after
    (before ++ (chunk.digits ++ crlf)) (l := { l with
      state := .chunkDataSizeRn
      prevIt := before.length
      newChunkSize := hexValue chunk.digits })
    ahead good.nonempty rfl (by rw [good.size])
  refine ⟨stored, l', ?_, state', res, size, ?_⟩
  · rw [ChunkText.bytes, feed_append_of_inside sized, inside]
  · have grown := StringView.text_append text crlf
    rw [ChunkText.bytes]
    simpa using grown

/-- Chunks go through and are stored in order. -/
theorem feed_chunks (chunks : List ChunkText) (ahead : List Byte)
    (good : ∀ chunk ∈ chunks, chunk.WellFormed)
    (small : ∀ chunk ∈ chunks, chunk.data.length < 2 ^ 31) (state : l.state = .newChunkStart) :
    ∃ stored l', feed (turn after) before (chunkBytes chunks) ahead 0 l = .inside 0 l' ∧
      l'.state = .newChunkStart ∧
      l'.res = { l.res with chunks := l.res.chunks ++ stored } ∧
      List.Forall₂ (ChunkRead (before ++ chunkBytes chunks)) stored chunks := by
  induction chunks generalizing before l with
  | nil => exact ⟨[], l, rfl, state, by rw [List.append_nil], .nil⟩
  | cons chunk rest inductionHypothesis =>
    obtain ⟨first, l', inside, state', res, read⟩ := feed_chunk after before
      (chunkBytes rest ++ ahead) (good chunk List.mem_cons_self)
      (small chunk List.mem_cons_self) state
    obtain ⟨stored, l'', inside', state'', res', later⟩ := inductionHypothesis
      (before ++ chunk.bytes)
      (fun other member => good other (List.mem_cons_of_mem _ member))
      (fun other member => small other (List.mem_cons_of_mem _ member)) state'
    refine ⟨first :: stored, l'', ?_, state'', ?_, ?_⟩
    · rw [chunkBytes_cons, feed_append_of_inside inside, inside']
    · rw [res', res]
      simp
    · rw [chunkBytes_cons, ← List.append_assoc]
      exact .cons (read.append _) later

end ResponseParser

end Sheep
