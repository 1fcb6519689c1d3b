/-
This file decides for which buffers the response parser ends with a verdict and
stores only views into the buffer. It goes wrong in two places: the content is
taken with the announced length without a look at what is left of the buffer,
and a chunk size from `2 ^ 31` on makes `stoi` throw.
-/

import Sheep.ResponseTrail

namespace Sheep

open ScanLoop

namespace ResponseParser

/-! ### Views inside the buffer -/

/-- Every view a response stores lies in a buffer of this length. -/
structure ViewsIn (length : Nat) (res : Response) : Prop where
  version : res.version.InBuffer length
  codestr : res.codestr.InBuffer length
  status : res.status.InBuffer length
  content : res.content.InBuffer length
  headers : ∀ header ∈ res.headers, header.name.InBuffer length ∧ header.value.InBuffer length
  chunks : ∀ chunk ∈ res.chunks, chunk.data.InBuffer length

theorem viewsIn_iff {length : Nat} {res : Response} :
    ViewsIn length res ↔ ∀ view ∈ res.views, view.InBuffer length := by
  constructor
  · rintro ⟨version, codestr, status, content, headers, chunks⟩ view member
    simp only [Response.views, List.mem_append, List.mem_cons, List.not_mem_nil, or_false,
      List.mem_flatMap, List.mem_map] at member
    rcases member with ((rfl | rfl | rfl | rfl) | ⟨header, isHeader, rfl | rfl⟩) |
      ⟨chunk, isChunk, rfl⟩
    · exact codestr
    · exact status
    · exact version
    · exact content
    · exact (headers header isHeader).1
    · exact (headers header isHeader).2
    · exact chunks chunk isChunk
  · intro inside
    refine ⟨inside _ ?_, inside _ ?_, inside _ ?_, inside _ ?_,
      fun header member => ⟨inside _ ?_, inside _ ?_⟩, fun chunk member => inside _ ?_⟩
    all_goals
      simp only [Response.views, List.mem_append, List.mem_cons, List.not_mem_nil, or_false,
        List.mem_flatMap, List.mem_map, true_or, or_true]
    · exact Or.inl (Or.inr ⟨header, member, Or.inl rfl⟩)
    · exact Or.inl (Or.inr ⟨header, member, Or.inr rfl⟩)
    · exact Or.inr ⟨chunk, member, rfl⟩

/-- A verdict, and a response whose views lie in the buffer. -/
def SafeOutcome (length : Nat) (outcome : Outcome) : Prop :=
  outcome.verdict ≠ none ∧ ViewsIn length outcome.response

/-- The parser returns a verdict and stores only views into the buffer. -/
def MemorySafe (after buf : List Byte) : Prop :=
  SafeOutcome buf.length (parse after .fresh buf)

/-! ### Buffers that lead outside -/

/-- A whole head is followed by at least one byte, and announces a length that is negative or
longer than what follows. -/
def Overlong (after buf : List Byte) : Prop :=
  ∃ (head : ResponseHead) (rest : List Byte), head.WellFormed ∧ head.lines ≠ [] ∧
    head.lines.any announcesChunks = false ∧ rest ≠ [] ∧ buf = head.bytes ++ rest ∧
    (head.announced (buf ++ after) < 0 ∨ (rest.length : Int) < head.announced (buf ++ after))

/-- A chunked head and some chunks are followed by a size from `2 ^ 31` on. -/
def HugeChunk (buf : List Byte) : Prop :=
  ∃ (head : ResponseHead) (chunks : List ChunkText) (digits rest : List Byte),
    head.WellFormed ∧ head.lines.any announcesChunks = true ∧
    (∀ chunk ∈ chunks, chunk.WellFormed ∧ chunk.data.length < 2 ^ 31) ∧ IsSize digits ∧
    2 ^ 31 ≤ hexValue digits ∧
    buf = head.bytes ++ (chunkBytes chunks ++ (digits ++ CR :: rest))

/-! ### Safe turns -/

/-- The variables of the loop lie in a buffer of this length. -/
structure Safe (length : Nat) (before : List Byte) (l : Locals) : Prop where
  low : 0 ≤ l.prevIt
  high : l.prevIt ≤ before.length
  named : l.headerName.InBuffer length
  views : ViewsIn length l.res

/-- The invariant of the loop: the trail, views in the buffer, and no jump beyond its end. -/
structure Inside (after buf before : List Byte) (skip : Nat) (l : Locals) : Prop where
  trail : Trail (buf ++ after) before skip l
  safe : Safe buf.length before l
  room : before.length + skip ≤ buf.length

variable {after buf before ahead : List Byte} {curChar : Byte} {l : Locals}

/-- What a turn may lead to. -/
abbrev SafeTurn (length : Nat) (before : List Byte) (turned : ParseTurn) : Prop :=
  turned.Leads (fun skip next => Safe length before next ∧ before.length + skip ≤ length)
    (SafeOutcome length)

theorem safeOutcome_returned {length : Nat} {res : Response} {verdict : ResponseParseResult}
    (views : ViewsIn length res) : SafeOutcome length (.returned verdict res) :=
  ⟨by simp [Outcome.verdict], views⟩

/-- The states in which the buffer decides: at the content, at the end of a size, and at the data
of a chunk. -/
def State.Measures (state : State) : Prop :=
  state = .dataStart ∨ state = .chunkDataSize ∨ state = .chunkDataSizeRn

/-- In all other states the views stored end at the current byte. -/
theorem turn_safe_of_not_measures {length : Nat} (safe : Safe length before l)
    (room : before.length < length) (plain : ¬ l.state.Measures) :
    SafeTurn length (before ++ [curChar]) (turn after before curChar ahead l) := by
  obtain ⟨state, prevIt, headerName, contentLength, newChunkSize, res⟩ := l
  obtain ⟨low, high, named, views⟩ := safe
  simp only at low high named views
  have here : (before ++ [curChar]).length = before.length + 1 := by simp
  have fits : (before ++ [curChar]).length + 0 ≤ length := by omega
  have view : (StringView.range prevIt before.length).InBuffer length := ⟨low, high, by omega⟩
  have stays (next : State) : Safe length (before ++ [curChar])
      ⟨next, prevIt, headerName, contentLength, newChunkSize, res⟩ :=
    ⟨low, by simp only [here]; omega, named, views⟩
  have moves (next : State) : Safe length (before ++ [curChar])
      ⟨next, before.length, headerName, contentLength, newChunkSize, res⟩ :=
    ⟨by simp only; omega, by simp only [here]; omega, named, views⟩
  have names (next : State) : Safe length (before ++ [curChar])
      ⟨next, prevIt, .range prevIt before.length, contentLength, newChunkSize, res⟩ :=
    ⟨low, by simp only [here]; omega, view, views⟩
  have stores (next : State) (length' : Int) (res' : Response) (views' : ViewsIn length res') :
      Safe length (before ++ [curChar])
        ⟨next, prevIt, headerName, length', newChunkSize, res'⟩ :=
    ⟨low, by simp only [here]; omega, named, views'⟩
  cases state
  case dataStart => exact absurd (Or.inl rfl) plain
  case chunkDataSize => exact absurd (Or.inr (Or.inl rfl)) plain
  case chunkDataSizeRn => exact absurd (Or.inr (Or.inr rfl)) plain
  case headerValueStart =>
    have added (header : Response.Header) (member : header ∈
        res.headers ++ [⟨headerName, .range prevIt before.length⟩]) :
        header.name.InBuffer length ∧ header.value.InBuffer length := by
      rcases List.mem_append.mp member with old | new
      · exact views.headers header old
      · rw [List.mem_singleton.mp new]
        exact ⟨named, view⟩
    simp only [turn, finishHeaderValue]
    repeat' split
    · exact ⟨stays _, fits⟩
    · exact ⟨stores _ _ _ { views with headers := added }, fits⟩
    · exact ⟨stores _ _ _ { views with headers := added }, fits⟩
    · exact ⟨stores _ _ _ { views with headers := added }, fits⟩
    · exact safeOutcome_returned views
  all_goals
    simp only [turn]
    repeat' split
    all_goals first
      | exact safeOutcome_returned views
      | exact safeOutcome_returned { views with codestr := view }
      | exact ⟨stays _, fits⟩
      | exact ⟨moves _, fits⟩
      | exact ⟨names _, fits⟩
      | exact ⟨stores _ _ _ { views with version := view }, fits⟩
      | exact ⟨stores _ _ _ { views with codestr := view }, fits⟩
      | exact ⟨stores _ _ _ { views with status := view }, fits⟩

/-- The trail in the states that measure is the trail of a body. -/
theorem bodyTrail_of_trail {memory : List Byte} (trail : Trail memory before 0 l)
    (measures : l.state.Measures) : BodyTrail memory before l := by
  rcases trail with ⟨jumping, _⟩ | ⟨_, ⟨status, _⟩ | header | body⟩
  · rw [State.Measures, jumping] at measures
    rcases measures with state | state | state <;> cases state
  · rcases measures with state | state | state <;> simp [State.InStatus, state] at status
  · rcases measures with state | state | state <;>
      · rw [HeaderTrail, state] at header
        exact absurd header id
  · exact body

/-- The content is taken with the announced length. -/
theorem turn_dataStart_safe (split : buf = before ++ curChar :: ahead)
    (safe : Safe buf.length before l) (trail : BodyTrail (buf ++ after) before l)
    (state : l.state = .dataStart) (fits : ¬ Overlong after buf) :
    SafeTurn buf.length (before ++ [curChar]) (turn after before curChar ahead l) := by
  rw [BodyTrail, state] at trail
  obtain ⟨head, done, single, same⟩ := trail
  simp only [turn, state]
  have enough : ¬ (head.announced (buf ++ after) < 0 ∨
      ((curChar :: ahead).length : Int) < head.announced (buf ++ after)) := fun outside =>
    fits ⟨head, curChar :: ahead, done.good, done.nonempty, single, List.cons_ne_nil _ _,
      by rw [split, same], outside⟩
  have length := done.length
  have total : buf.length = before.length + (curChar :: ahead).length := by
    rw [split, List.length_append]
  refine safeOutcome_returned { safe.views with content := ⟨?_, ?_, ?_⟩ }
  all_goals
    have low : (0 : Int) ≤ before.length := Int.natCast_nonneg _
    omega

/-- A size that ends here is converted. -/
theorem turn_chunkDataSize_safe (split : buf = before ++ curChar :: ahead)
    (safe : Safe buf.length before l) (trail : BodyTrail (buf ++ after) before l)
    (state : l.state = .chunkDataSize) (small : ¬ HugeChunk buf) :
    SafeTurn buf.length (before ++ [curChar]) (turn after before curChar ahead l) := by
  rw [BodyTrail, state] at trail
  obtain ⟨head, chunks, digits, read, isSize, same, starts⟩ := trail
  have here : (before ++ [curChar]).length = before.length + 1 := by simp
  have room : (before ++ [curChar]).length + 0 ≤ buf.length := by
    rw [split]
    simp
  have stays (next : State) (size : Int) : Safe buf.length (before ++ [curChar])
      { l with state := next, newChunkSize := size } :=
    ⟨safe.low, by have high := safe.high; simp only [here]; omega, safe.named, safe.views⟩
  simp only [turn, state]
  split
  · exact ⟨stays l.state l.newChunkSize, room⟩
  · split
    · rename_i carriage
      have notHuge : hexValue digits < 2 ^ 31 := by
        refine not_le.mp fun huge => small ⟨head, chunks, digits, ahead, read.good, read.chunked,
          fun chunk member => ⟨read.wellFormed chunk member, read.small chunk member⟩, isSize, huge,
          ?_⟩
        rw [split, same, carriage]
        simp
      have read : stoi16 ((before ++ curChar :: ahead ++ after).drop l.prevIt.toNat) =
          some (hexValue digits : Int) := by
        rw [carriage, same, starts, stoi16_size after _ isSize, if_pos notHuge]
      rw [read]
      simp only
      split
      · exact ⟨stays _ _, room⟩
      · exact ⟨stays _ _, room⟩
    · exact safeOutcome_returned safe.views

/-- The data of a chunk is taken only if the buffer holds it. -/
theorem turn_chunkDataSizeRn_safe (split : buf = before ++ curChar :: ahead)
    (safe : Safe buf.length before l) (trail : BodyTrail (buf ++ after) before l)
    (state : l.state = .chunkDataSizeRn) :
    SafeTurn buf.length (before ++ [curChar]) (turn after before curChar ahead l) := by
  rw [BodyTrail, state] at trail
  obtain ⟨head, chunks, digits, read, sized, same⟩ := trail
  have positive := sized.positive
  have value := sized.value
  have total : buf.length = before.length + (ahead.length + 1) := by
    rw [split, List.length_append, List.length_cons]
  have here : (before ++ [curChar]).length = before.length + 1 := by simp
  simp only [turn, state, takeChunk]
  split
  · refine ⟨⟨safe.low, by have high := safe.high; simp only [here]; omega, safe.named,
      { safe.views with chunks := fun chunk member => ?_ }⟩, by rw [here]; omega⟩
    rcases List.mem_append.mp member with old | new
    · exact safe.views.chunks chunk old
    · rw [List.mem_singleton.mp new]
      exact ⟨by omega, by omega, by omega⟩
  · exact safeOutcome_returned safe.views

/-- Every turn keeps the invariant. -/
theorem turn_inside (split : buf = before ++ curChar :: ahead)
    (inside : Inside after buf before 0 l) (fits : ¬ Overlong after buf)
    (small : ¬ HugeChunk buf) :
    (turn after before curChar ahead l).Leads (Inside after buf (before ++ [curChar]))
      (SafeOutcome buf.length) := by
  have safeTurn :
      SafeTurn buf.length (before ++ [curChar]) (turn after before curChar ahead l) := by
    by_cases measures : l.state.Measures
    · have trail := bodyTrail_of_trail inside.trail measures
      rcases measures with state | state | state
      · exact turn_dataStart_safe split inside.safe trail state fits
      · exact turn_chunkDataSize_safe split inside.safe trail state small
      · exact turn_chunkDataSizeRn_safe split inside.safe trail state
    · refine turn_safe_of_not_measures inside.safe ?_ measures
      rw [split, List.length_append, List.length_cons]
      omega
  have whole : buf ++ after = before ++ curChar :: ahead ++ after := by rw [split]
  refine ((turn_trail whole inside.trail).and safeTurn).mono ?_ fun _ final => final.2
  rintro skip next ⟨trail, safe, room⟩
  exact ⟨trail, safe, room⟩

/-! ### Safe runs -/

theorem memorySafe_of_fits (fits : ¬ Overlong after buf) (small : ¬ HugeChunk buf) :
    MemorySafe after buf := by
  have none : ViewsIn buf.length Response.fresh :=
    ⟨trivial, trivial, trivial, trivial, fun _ member => absurd member List.not_mem_nil,
      fun _ member => absurd member List.not_mem_nil⟩
  have initial : Inside after buf [] 0 (start .fresh) :=
    ⟨trail_start _, ⟨Int.le_refl 0, Int.le_refl 0, trivial, none⟩, Nat.zero_le _⟩
  have leads : (feed (turn after) [] buf [] 0 (start .fresh)).Leads
      (Inside after buf ([] ++ buf)) (SafeOutcome buf.length) := by
    refine feed_invariant (Inside after buf) initial ?_ ?_
    · intro before' symbol after' l split inside
      refine turn_inside ?_ inside fits small
      simpa using split.symm
    · intro before' symbol skip l inside
      refine ⟨inside.trail.skipped symbol, ⟨inside.safe.low, ?_, inside.safe.named,
        inside.safe.views⟩, ?_⟩
      · have high := inside.safe.high
        rw [List.length_append]
        omega
      · have room := inside.room
        rw [List.length_append, List.length_singleton]
        omega
  rw [List.nil_append] at leads
  rw [MemorySafe, parse, run]
  cases ended : feed (turn after) [] buf [] 0 (start .fresh) with
  | left outcome =>
    rw [ended] at leads
    exact leads
  | inside skip l =>
    rw [ended] at leads
    have zero : skip = 0 := by
      have room := leads.room
      omega
    subst zero
    exact safeOutcome_returned leads.safe.views

/-- With an announced length that does not fit, the content reaches outside. -/
theorem not_memorySafe_of_overlong (overlong : Overlong after buf) : ¬ MemorySafe after buf := by
  rintro ⟨_, views⟩
  obtain ⟨head, rest, good, nonempty, single, more, rfl, outside⟩ := overlong
  obtain ⟨first, others, rfl⟩ := List.exists_cons_of_ne_nil more
  obtain ⟨l, inside, state, _, length⟩ := feed_head after head good nonempty (first :: others)
  have inData : l.state = .dataStart := by
    rw [state, ResponseHead.bodyState, if_neg]
    rw [single]
    exact Bool.false_ne_true
  have taken : turn after head.bytes first (others ++ []) l = .leave
      (.returned .completed { l.res with
      content := .range head.bytes.length (head.bytes.length + l.contentLength) })
      [.range head.bytes.length (head.bytes.length + l.contentLength)] := by
    simp only [turn, inData]
  have left : feed (turn after) [] (head.bytes ++ first :: others) [] 0 (start .fresh) =
      .left (.returned .completed { l.res with
        content := .range head.bytes.length (head.bytes.length + l.contentLength) }) := by
    rw [feed_append_of_inside (by rw [List.append_nil]; exact inside)]
    exact feed_cons_leave taken
  rw [parse_of_left left] at views
  obtain ⟨_, ordered, ends⟩ := views.content
  rw [List.length_append, Int.natCast_add] at ends
  rw [length] at ordered ends
  omega

/-- A size that does not fit into an `int` is not survived. -/
theorem not_memorySafe_of_hugeChunk (huge : HugeChunk buf) : ¬ MemorySafe after buf := by
  rintro ⟨verdict, _⟩
  obtain ⟨head, chunks, digits, rest, good, chunked, goodChunks, isSize, large, rfl⟩ := huge
  have nonempty : head.lines ≠ [] := by
    intro empty
    rw [empty] at chunked
    cases chunked
  obtain ⟨l, inside, state, _⟩ :=
    feed_head after head good nonempty (chunkBytes chunks ++ (digits ++ CR :: rest))
  have inChunks : l.state = .newChunkStart := state.trans (if_pos chunked)
  obtain ⟨stored, l', inside', state', _⟩ := feed_chunks after head.bytes chunks
    (digits ++ CR :: rest) (fun chunk member => (goodChunks chunk member).1)
    (fun chunk member => (goodChunks chunk member).2) inChunks
  have left : feed (turn after) [] (head.bytes ++ (chunkBytes chunks ++ (digits ++ CR :: rest))) []
      0 (start .fresh) = .left (.threw l'.res) := by
    rw [feed_append_of_inside (by rw [List.append_nil]; exact inside), List.nil_append,
      feed_append_of_inside (by rw [List.append_nil]; exact inside')]
    exact feed_hugeSize after _ state' isSize large
  rw [parse_of_left left] at verdict
  exact verdict rfl

/-- Memory and exception safety: exactly the buffers with an announced length that does not fit,
and those with a chunk size from `2 ^ 31` on, lead outside. -/
theorem memorySafe_iff_fits (after buf : List Byte) :
    MemorySafe after buf ↔ ¬ Overlong after buf ∧ ¬ HugeChunk buf :=
  ⟨fun safe => ⟨fun overlong => not_memorySafe_of_overlong overlong safe,
      fun huge => not_memorySafe_of_hugeChunk huge safe⟩,
    fun fits => memorySafe_of_fits fits.1 fits.2⟩

/-- A response that announces five bytes, of which one has arrived. -/
def earlyBody : List Byte := ascii "HTTP/1.1 200 OK\r\nContent-Length: 5\r\n\r\na"

/-- The content is stored with its end four bytes beyond the buffer. -/
theorem not_memorySafe_earlyBody : ¬ MemorySafe [] earlyBody := by
  rintro ⟨_, views⟩
  have stored := viewsIn_iff.mp views
  revert stored
  decide

end ResponseParser

end Sheep
