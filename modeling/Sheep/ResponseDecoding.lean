/-
This file proves that a chunked body is decoded exactly as its grammar says. A
response head leads to the state in which a chunk starts, and from there on the
parser stays in the states of chunks. A body is completed just if it starts with
chunks and the line of the last one, and then the chunks stored are these. On
the way the views of the chunks follow one another inside the buffer, and the
iterator never jumps beyond its end.
-/

import Sheep.ResponseTrail

namespace Sheep

open ScanLoop

namespace ResponseParser

/-! ### Sizes of zero -/

theorem hexDigit_eq_zero_iff {byte : Byte} (hex : isHexChar byte = true) :
    hexDigit byte = 0 ↔ byte = chr '0' := by
  rw [isHexChar_iff] at hex
  rw [UInt8.ext_iff, hexDigit, show (chr '0').toNat = 48 from rfl]
  split <;> [skip; split] <;> omega

theorem foldl_hexDigit_eq_zero_iff {digits : List Byte} (value : Nat)
    (hex : ∀ byte ∈ digits, isHexChar byte = true) :
    digits.foldl (fun value byte => value * 16 + hexDigit byte) value = 0 ↔
      value = 0 ∧ ∀ byte ∈ digits, byte = chr '0' := by
  induction digits generalizing value with
  | nil => simp
  | cons byte rest inductionHypothesis =>
    obtain ⟨here, later⟩ := List.forall_mem_cons.mp hex
    rw [List.foldl_cons, inductionHypothesis _ later, List.forall_mem_cons,
      ← hexDigit_eq_zero_iff here]
    constructor
    · rintro ⟨zero, others⟩
      exact ⟨by omega, by omega, others⟩
    · rintro ⟨rfl, zero, others⟩
      exact ⟨by omega, others⟩

/-- A size is zero just if it is written with zeros. -/
theorem hexValue_eq_zero_iff {digits : List Byte} (isSize : IsSize digits) :
    hexValue digits = 0 ↔ ∀ byte ∈ digits, byte = chr '0' := by
  rw [hexValue, foldl_hexDigit_eq_zero_iff 0 isSize.forall_mem]
  exact ⟨And.right, fun zeros => ⟨rfl, zeros⟩⟩

theorem isSize_of_zeros {zeros : List Byte} (nonempty : zeros ≠ [])
    (all : ∀ byte ∈ zeros, byte = chr '0') : IsSize zeros := by
  cases zeros with
  | nil => exact absurd rfl nonempty
  | cons byte others =>
    have hex (other : Byte) (member : other ∈ byte :: others) : isHexChar other = true := by
      rw [all other member]
      decide
    exact ⟨hex byte List.mem_cons_self,
      fun other member => hex other (List.mem_cons_of_mem _ member)⟩

/-! ### The states of chunks -/

def State.InChunks (state : State) : Prop :=
  state = .newChunkStart ∨ state = .chunkDataSize ∨ state = .zeroChunkSizeR ∨
    state = .chunkDataSizeR ∨ state = .chunkDataSizeRn ∨ state = .chunkDataEnd ∨
    state = .chunkDataR

variable {after before ahead : List Byte} {curChar : Byte} {l : Locals}

variable (after before curChar ahead) in
/-- Whoever is in the chunks stays there, or is done behind the line of the last one. -/
theorem turn_inChunks (state : l.state.InChunks) :
    (turn after before curChar ahead l).Leads (fun _ next => next.state.InChunks)
      (fun outcome => outcome.verdict = some .completed →
        l.state = .zeroChunkSizeR ∧ curChar = LF ∧ outcome.response = l.res) := by
  obtain ⟨_, prevIt, headerName, contentLength, newChunkSize, res⟩ := l
  rcases state with rfl | rfl | rfl | rfl | rfl | rfl | rfl <;> simp only [turn, takeChunk] <;>
    repeat' split
  all_goals simp [State.InChunks, Outcome.verdict, Outcome.response, *]

/-- So far the text alone leads to the start of a chunk. -/
def AtChunk (text : List Byte) : Prop :=
  ∃ l, feed (turn []) [] text [] 0 (start .fresh) = .inside 0 l ∧ l.state = .newChunkStart

/-- The last byte of the text leads to the start of a chunk, for the first time. -/
structure OpensChunks (text : List Byte) : Prop where
  reaches : AtChunk text
  first : ∀ shorter, shorter <+: text → shorter ≠ text → ¬ AtChunk shorter

variable (after) in
/-- A chunked head leads to the start of a chunk. -/
theorem feed_chunkedHead {head : ResponseHead} (good : head.WellFormed)
    (chunked : head.lines.any announcesChunks = true) (rest : List Byte) :
    ∃ l, feed (turn after) [] head.bytes rest 0 (start .fresh) = .inside 0 l ∧
      l.state = .newChunkStart ∧ l.res.chunks = [] := by
  have nonempty : head.lines ≠ [] := by
    intro empty
    rw [empty] at chunked
    cases chunked
  obtain ⟨l, inside, state, read, _⟩ := feed_head after head good nonempty rest
  exact ⟨l, inside, state.trans (if_pos chunked), read.chunks⟩

/-- What leads to the start of a chunk is a head and some chunks. -/
theorem exists_head_of_atChunk {text : List Byte} (atChunk : AtChunk text) :
    ∃ (head : ResponseHead) (chunks : List ChunkText), head.WellFormed ∧
      head.lines.any announcesChunks = true ∧ text = head.bytes ++ chunkBytes chunks := by
  obtain ⟨l, inside, state⟩ := atChunk
  rcases trail_of_feed inside with ⟨jumping, _⟩ | ⟨_, ⟨status, _⟩ | header | body⟩
  · rw [state] at jumping
    cases jumping
  · simp [State.InStatus, state] at status
  · rw [HeaderTrail, state] at header
    exact absurd header id
  · rw [BodyTrail, state] at body
    obtain ⟨head, chunks, read, same⟩ := body
    exact ⟨head, chunks, read.good, read.chunked, same⟩

variable (after before ahead) in
/-- What is fed from the start of a chunk leads into the chunks. -/
theorem feed_inChunks (input : List Byte) (state : l.state.InChunks) :
    (feed (turn after) before input ahead 0 l).Leads (fun _ next => next.state.InChunks)
      (fun _ => True) := by
  refine feed_invariant (fun _ _ (l : Locals) => l.state.InChunks) state ?_ ?_
  · intro before' symbol after' l' _ state'
    exact (turn_inChunks _ _ _ _ state').mono (fun _ _ kept => kept) fun _ _ => trivial
  · exact fun _ _ _ _ kept => kept

/-- A chunked head does not go on behind another one: before its last byte the parser is not among
the chunks. -/
theorem chunkedHead_bytes_ne_append (more : List Byte) {head head' : ResponseHead}
    (good : head.WellFormed) (chunked : head.lines.any announcesChunks = true)
    (good' : head'.WellFormed) (nonempty : more ≠ []) : head'.bytes ≠ head.bytes ++ more := by
  intro same
  obtain ⟨front, last, rfl⟩ := (List.eq_nil_or_concat' more).resolve_left nonempty
  have shape : head'.bytes =
      head'.line.bytes ++ head'.junk ++ headerBytes head'.lines ++ [CR] ++ [LF] := by
    simp [ResponseHead.bytes]
  rw [shape, ← List.append_assoc] at same
  obtain ⟨sameFront, _⟩ := List.append_inj' same rfl
  have runs : Runs (turn []) []
      (head'.line.bytes ++ head'.junk ++ headerBytes head'.lines ++ [CR]) (start .fresh)
      fun _ l => l.state = .headerRnr ∨ l.state = .statusMsgEndRnr := by
    refine Runs.append (runs_upToLines [] head' good') ?_
    rintro l ⟨state, _⟩
    refine runs_cons fun ahead => ?_
    rcases state with ⟨_, state⟩ | ⟨_, state⟩
    · simp only [turn, state, if_true, onward_go]
      exact runs_nil (Or.inr rfl)
    · simp only [turn, state, if_true, onward_go]
      exact runs_nil (Or.inl rfl)
  obtain ⟨l, inside, notChunks⟩ := runs.feed []
  obtain ⟨l', inside', state', _⟩ := feed_chunkedHead [] good chunked (front ++ [])
  have leads := feed_inChunks [] ([] ++ head.bytes) [] front (Or.inl state')
  rw [sameFront, feed_append_of_inside inside'] at inside
  rw [inside] at leads
  rcases notChunks with state | state <;> simp [State.InChunks, Progress.Leads, state] at leads

/-- A buffer starts with at most one chunked head. -/
theorem chunkedHead_bytes_inj {head head' : ResponseHead} {rest rest' : List Byte}
    (good : head.WellFormed) (chunked : head.lines.any announcesChunks = true)
    (good' : head'.WellFormed) (chunked' : head'.lines.any announcesChunks = true)
    (same : head.bytes ++ rest = head'.bytes ++ rest') : head.bytes = head'.bytes := by
  rcases List.append_eq_append_iff.mp same with ⟨more, longer, _⟩ | ⟨more, longer, _⟩
  · by_cases empty : more = []
    · rw [longer, empty, List.append_nil]
    · exact absurd longer (chunkedHead_bytes_ne_append _ good chunked good' empty)
  · by_cases empty : more = []
    · rw [longer, empty, List.append_nil]
    · exact absurd longer (chunkedHead_bytes_ne_append _ good' chunked' good empty)

/-- What opens the chunks of a response is its head. -/
theorem opensChunks_iff {text : List Byte} : OpensChunks text ↔ ∃ head : ResponseHead,
    head.WellFormed ∧ head.lines.any announcesChunks = true ∧ text = head.bytes := by
  have atChunk {head : ResponseHead} (good : head.WellFormed)
      (chunked : head.lines.any announcesChunks = true) : AtChunk head.bytes := by
    obtain ⟨l, inside, state, _⟩ := feed_chunkedHead [] good chunked []
    exact ⟨l, inside, state⟩
  constructor
  · intro opens
    obtain ⟨head, chunks, good, chunked, same⟩ := exists_head_of_atChunk opens.reaches
    refine ⟨head, good, chunked, ?_⟩
    by_contra longer
    exact opens.first head.bytes ⟨chunkBytes chunks, same.symm⟩ (Ne.symm longer)
      (atChunk good chunked)
  · rintro ⟨head, good, chunked, rfl⟩
    refine ⟨atChunk good chunked, fun shorter ⟨more, same⟩ proper reaches => ?_⟩
    obtain ⟨head', chunks, good', chunked', rfl⟩ := exists_head_of_atChunk reaches
    have nonempty : more ≠ [] := by
      rintro rfl
      exact proper (by rw [← same, List.append_nil])
    refine chunkedHead_bytes_ne_append (chunkBytes chunks ++ more) good' chunked' good
      (fun empty => nonempty (List.append_eq_nil_iff.mp empty).2) ?_
    rw [← same, List.append_assoc]

/-! ### Views in order -/

/-- The views of the chunks follow one another between two positions. -/
def Laid : Int → List Response.Chunk → Int → Prop
  | low, [], high => low ≤ high
  | low, chunk :: chunks, high => ∃ first last, chunk.data = .range first last ∧ low ≤ first ∧
      first ≤ last ∧ Laid last chunks high

theorem Laid.mono {low high high' : Int} {chunks : List Response.Chunk}
    (laid : Laid low chunks high) (le : high ≤ high') : Laid low chunks high' := by
  induction chunks generalizing low with
  | nil => exact le_trans laid le
  | cons chunk rest inductionHypothesis =>
    obtain ⟨first, last, view, starts, ends, later⟩ := laid
    exact ⟨first, last, view, starts, ends, inductionHypothesis later⟩

theorem Laid.snoc {low high first last : Int} {chunks : List Response.Chunk}
    {chunk : Response.Chunk} (laid : Laid low chunks first)
    (view : chunk.data = .range first last) (ordered : first ≤ last) (fits : last ≤ high) :
    Laid low (chunks ++ [chunk]) high := by
  induction chunks generalizing low with
  | nil => exact ⟨first, last, view, laid, ordered, fits⟩
  | cons other rest inductionHypothesis =>
    obtain ⟨first', last', view', starts, ends, later⟩ := laid
    exact ⟨first', last', view', starts, ends, inductionHypothesis later⟩

/-- In the chunks: where the loop stands, the views stored so far end before it, and nothing is
jumped over beyond the end of the buffer. -/
structure InBody (after buf : List Byte) (offset : Int) (before : List Byte) (skip : Nat)
    (l : Locals) : Prop where
  state : l.state.InChunks
  trail : Trail (buf ++ after) before skip l
  laid : Laid offset l.res.chunks (before.length + skip)
  room : before.length + skip ≤ buf.length

/-- What a body may end with. -/
structure Bounded (buf : List Byte) (offset : Int) (outcome : Outcome) : Prop where
  inside : ∀ res, outcome ≠ .overran res
  laid : Laid offset outcome.response.chunks buf.length

variable {buf : List Byte} {offset : Int}

/-- Every turn in the chunks keeps the views in order. -/
theorem turn_laid (split : buf = before ++ curChar :: ahead)
    (inBody : InBody after buf offset before 0 l) :
    (turn after before curChar ahead l).Leads
      (fun skip next => Laid offset next.res.chunks ((before ++ [curChar]).length + skip) ∧
        (before ++ [curChar]).length + skip ≤ buf.length) (Bounded buf offset) := by
  have total : buf.length = before.length + (ahead.length + 1) := by
    rw [split, List.length_append, List.length_cons]
  have here : (before ++ [curChar]).length = before.length + 1 := by simp
  have laid := inBody.laid
  have further : Laid offset l.res.chunks (((before ++ [curChar]).length : Int) + (0 : Nat)) :=
    laid.mono (by omega)
  have whole : Laid offset l.res.chunks buf.length := laid.mono (by omega)
  have fits : (before ++ [curChar]).length + 0 ≤ buf.length := by omega
  by_cases taken : l.state = .chunkDataSizeRn
  · have trail := inBody.trail
    rcases trail with ⟨jumping, _⟩ | ⟨_, ⟨status, _⟩ | header | body⟩
    · rw [taken] at jumping
      cases jumping
    · simp [State.InStatus, taken] at status
    · rw [HeaderTrail, taken] at header
      exact absurd header id
    · rw [BodyTrail, taken] at body
      obtain ⟨head, chunks, digits, read, sized, same⟩ := body
      have positive := sized.positive
      have value := sized.value
      simp only [turn, taken, takeChunk]
      split
      · refine ⟨Laid.snoc (laid.mono (by omega)) rfl (by omega) (by omega), by omega⟩
      · exact ⟨by simp, whole⟩
  · obtain ⟨state, prevIt, headerName, contentLength, newChunkSize, res⟩ := l
    have state' := inBody.state
    simp only at state' taken further whole
    have stays (next : State) (prevIt' size : Int) (notes : List StringView) :
        (Turn.go ⟨next, prevIt', headerName, contentLength, size, res⟩ notes : ParseTurn).Leads
          (fun skip next => Laid offset next.res.chunks ((before ++ [curChar]).length + skip) ∧
            (before ++ [curChar]).length + skip ≤ buf.length) (Bounded buf offset) :=
      ⟨further, fits⟩
    have returns (verdict : ResponseParseResult) :
        Bounded buf offset (.returned verdict res) := ⟨by simp, whole⟩
    have throws : Bounded buf offset (.threw res) := ⟨by simp, whole⟩
    rcases state' with rfl | rfl | rfl | rfl | rfl | rfl | rfl
    case inr.inr.inr.inr.inl => exact absurd rfl taken
    all_goals
      simp only [turn]
      repeat' split
      all_goals first
        | exact stays _ _ _ _
        | exact returns _
        | exact throws

/-- What is fed from the start of a chunk keeps the invariant to the end of the buffer. -/
theorem feed_inBody (text body : List Byte) (state : l.state = .newChunkStart)
    (none : l.res.chunks = []) (reached : Trail (text ++ body ++ after) text 0 l) :
    (feed (turn after) text body [] 0 l).Leads
      (InBody after (text ++ body) text.length (text ++ body))
      (Bounded (text ++ body) text.length) := by
  have initial : InBody after (text ++ body) text.length text 0 l := by
    refine ⟨Or.inl state, reached, ?_, by simp⟩
    rw [none]
    exact (add_zero _).ge
  refine feed_invariant (InBody after (text ++ body) text.length) initial ?_ ?_
  · intro before' symbol after' l' split inBody
    rw [List.append_nil] at split
    have whole : text ++ body ++ after = before' ++ symbol :: after' ++ after := by rw [split]
    refine (((turn_inChunks _ _ _ _ inBody.state).and (turn_trail whole inBody.trail)).and
      (turn_laid split.symm inBody)).mono ?_ fun _ final => final.2
    rintro skip next ⟨⟨state', trail'⟩, laid', room'⟩
    exact ⟨state', trail', laid', room'⟩
  · intro before' symbol skip l' inBody
    have here : (before' ++ [symbol]).length = before'.length + 1 := by simp
    refine ⟨inBody.state, inBody.trail.skipped symbol, ?_, ?_⟩
    · refine inBody.laid.mono ?_
      rw [here]
      push_cast
      omega
    · have room := inBody.room
      omega

/-! ### Decoding -/

/-- The stored chunks hold these contents. -/
def HoldChunks (buf : List Byte) (chunks : List Response.Chunk) (contents : List (List Byte)) :
    Prop :=
  List.Forall₂ (fun (chunk : Response.Chunk) (content : List Byte) =>
    chunk.size = content.length ∧ chunk.data.text buf = some content) chunks contents

theorem holdChunks_of_chunkRead {chunks : List Response.Chunk} {texts : List ChunkText}
    (read : List.Forall₂ (ChunkRead buf) chunks texts) :
    HoldChunks buf chunks (texts.map (·.data)) :=
  List.forall₂_map_right_iff.mpr (read.imp fun _ _ one => ⟨one.size, one.data⟩)

theorem HoldChunks.eq {chunks : List Response.Chunk} {contents contents' : List (List Byte)}
    (holds : HoldChunks buf chunks contents) (holds' : HoldChunks buf chunks contents') :
    contents = contents' := by
  induction holds generalizing contents' with
  | nil =>
    cases holds'
    rfl
  | cons held _ inductionHypothesis =>
    cases holds' with
    | cons held' later =>
      rw [inductionHypothesis later]
      have same := held.2.symm.trans held'.2
      injection same with same
      rw [same]

/-- The digits between `prev_it` and this position, where the parser stands behind digits. -/
def sizeAt (after buf : List Byte) (position : Nat) : Option (List Byte) :=
  match feed (turn after) [] (buf.take position) (buf.drop position) 0 (start .fresh) with
  | .inside 0 l =>
      if l.state = .chunkDataSize then (StringView.range l.prevIt position).text (buf.take position)
      else none
  | _ => none

/-- A size that the parser converts: it meets a carriage return behind these digits. -/
def Converts (after buf digits : List Byte) : Prop :=
  ∃ position, buf[position]? = some CR ∧ sizeAt after buf position = some digits

/-- The body starts with these chunks and the line of the last one. -/
structure StartsWithChunks (body : List Byte) (chunks : List ChunkText) : Prop where
  good : ∀ chunk ∈ chunks, chunk.WellFormed
  last : ∃ zeros, zeros ≠ [] ∧ (∀ byte ∈ zeros, byte = chr '0') ∧
    chunkBytes chunks ++ (zeros ++ crlf) <+: body

/-- Every chunk a body starts with has a size that the parser can hold. -/
theorem small_of_converts {head : ResponseHead} {chunks : List ChunkText} {rest : List Byte}
    (good : head.WellFormed) (chunked : head.lines.any announcesChunks = true)
    (goodChunks : ∀ chunk ∈ chunks, chunk.WellFormed)
    (small : ∀ digits, Converts after (head.bytes ++ (chunkBytes chunks ++ rest)) digits →
      hexValue digits < 2 ^ 31) : ∀ chunk ∈ chunks, chunk.data.length < 2 ^ 31 := by
  by_contra fails
  obtain ⟨front, chunk, back, rfl, smallFront, huge⟩ := exists_first_failure fails
  have goodChunk := goodChunks chunk (by simp)
  have shape : head.bytes ++ (chunkBytes (front ++ chunk :: back) ++ rest) =
      head.bytes ++ (chunkBytes front ++ (chunk.digits ++
        CR :: (LF :: (chunk.data ++ (crlf ++ (chunkBytes back ++ rest)))))) := by
    simp [chunkBytes, ChunkText.bytes]
  rw [shape] at small
  generalize LF :: (chunk.data ++ (crlf ++ (chunkBytes back ++ rest))) = tail at small
  obtain ⟨l, inside, state, _⟩ := feed_chunkedHead after good chunked
    (chunkBytes front ++ (chunk.digits ++ CR :: tail))
  obtain ⟨stored, l', inside', state', _⟩ := feed_chunks after ([] ++ head.bytes) front
    (chunk.digits ++ CR :: tail) (fun other member => goodChunks other (by simp [member]))
    smallFront state
  obtain ⟨l'', inside'', same⟩ := (runs_chunkDigits after
    ([] ++ head.bytes ++ chunkBytes front) state' goodChunk.digits).feed (CR :: tail)
  have split : head.bytes ++ (chunkBytes front ++ (chunk.digits ++ CR :: tail)) =
      (head.bytes ++ chunkBytes front ++ chunk.digits) ++ CR :: tail := by simp
  refine huge (goodChunk.size ▸ small chunk.digits
    ⟨(head.bytes ++ chunkBytes front ++ chunk.digits).length, ?_, ?_⟩)
  · rw [split, List.getElem?_append_right (le_refl _), Nat.sub_self]
    rfl
  · have reached : feed (turn after) [] (head.bytes ++ chunkBytes front ++ chunk.digits)
        (CR :: tail) 0 (start .fresh) = .inside 0 l'' := by
      rw [List.append_assoc head.bytes,
        feed_append_of_inside (by rw [List.append_assoc]; exact inside),
        feed_append_of_inside inside', inside'']
    rw [sizeAt, split, List.take_left, List.drop_left, reached, same]
    simp only [if_true]
    exact StringView.text_range (head.bytes ++ chunkBytes front) chunk.digits [] (by simp) (by simp)
      rfl

variable (after) in
/-- Chunks and the line of the last one are completed and stored, whatever follows them. -/
theorem parse_of_startsWithChunks {head : ResponseHead} {body : List Byte}
    {chunks : List ChunkText} (good : head.WellFormed)
    (chunked : head.lines.any announcesChunks = true) (starts : StartsWithChunks body chunks)
    (small : ∀ chunk ∈ chunks, chunk.data.length < 2 ^ 31) :
    ∃ res, parse after .fresh (head.bytes ++ body) = .returned .completed res ∧
      HoldChunks (head.bytes ++ body) res.chunks (chunks.map (·.data)) := by
  obtain ⟨goodChunks, zeros, nonempty, allZeros, rest, rfl⟩ := starts
  have isSize := isSize_of_zeros nonempty allZeros
  have zero : hexValue zeros = 0 := (hexValue_eq_zero_iff isSize).mpr allZeros
  have shape : head.bytes ++ (chunkBytes chunks ++ (zeros ++ crlf) ++ rest) =
      head.bytes ++ (chunkBytes chunks ++ (zeros ++ [CR] ++ LF :: rest)) := by simp
  obtain ⟨l, inside, state, none⟩ := feed_chunkedHead after good chunked
    (chunkBytes chunks ++ (zeros ++ [CR] ++ LF :: rest))
  obtain ⟨stored, l', inside', state', res, read⟩ := feed_chunks after ([] ++ head.bytes) chunks
    (zeros ++ [CR] ++ LF :: rest) goodChunks small state
  obtain ⟨l'', inside'', same⟩ := (runs_size after ([] ++ head.bytes ++ chunkBytes chunks) state'
    isSize (by rw [zero]; decide)).feed (LF :: rest)
  have ends (before : List Byte) :
      turn after before LF (rest ++ []) l'' = .leave (.returned .completed l''.res) [] := by
    rw [turn, same]
    simp only [zero, ne_eq, not_true_eq_false, if_false, if_true]
  have left : feed (turn after) [] (head.bytes ++ (chunkBytes chunks ++
      (zeros ++ [CR] ++ LF :: rest))) [] 0 (start .fresh) =
        .left (.returned .completed l''.res) := by
    rw [feed_append_of_inside (by rw [List.append_nil]; exact inside),
      feed_append_of_inside (by rw [List.append_nil]; exact inside'),
      feed_append_of_inside (by rw [List.append_nil]; exact inside''), feed_cons_leave (ends _)]
  rw [shape]
  refine ⟨l''.res, parse_of_left left, ?_⟩
  have stores : l''.res.chunks = stored := by rw [same, res, none, List.nil_append]
  rw [stores]
  refine holdChunks_of_chunkRead (read.imp fun _ _ one => ?_)
  have grown := one.append (zeros ++ [CR] ++ LF :: rest)
  simpa using grown

/-- What is completed starts with the chunks that are stored. -/
theorem startsWithChunks_of_completed {head : ResponseHead} {body : List Byte}
    (good : head.WellFormed) (chunked : head.lines.any announcesChunks = true)
    (completed : (parse after .fresh (head.bytes ++ body)).verdict = some .completed) :
    ∃ chunks, StartsWithChunks body chunks ∧
      HoldChunks (head.bytes ++ body) (parse after .fresh (head.bytes ++ body)).response.chunks
        (chunks.map (·.data)) := by
  obtain ⟨l, inside, state, none⟩ := feed_chunkedHead after good chunked body
  have whole : feed (turn after) [] (head.bytes ++ body) [] 0 (start .fresh) =
      feed (turn after) head.bytes body [] 0 l :=
    feed_append_of_inside (by rw [List.append_nil]; exact inside)
  have leads := feed_inBody head.bytes body state none (trail_of_feed inside)
  cases ended : feed (turn after) head.bytes body [] 0 l with
  | inside skip l' =>
    rw [ended] at leads
    have zero : skip = 0 := by
      have room := leads.room
      omega
    subst zero
    rw [parse_of_inside (whole.trans ended)] at completed
    cases completed
  | left outcome =>
    rw [parse_of_left (whole.trans ended)] at completed ⊢
    obtain ⟨first, symbol, second, reached, notes, rfl, inside', leave⟩ :=
      exists_leave_of_feed ended
    rw [List.append_nil] at inside' leave
    have stays := feed_inChunks after head.bytes (symbol :: second) first (Or.inl state)
    rw [inside'] at stays
    have ends := turn_inChunks after (head.bytes ++ first) second symbol stays
    rw [leave] at ends
    obtain ⟨last, rfl, response⟩ := ends completed
    have fed : feed (turn after) [] (head.bytes ++ first) (LF :: second) 0 (start .fresh) = _ :=
      (feed_append_of_inside inside).trans inside'
    rcases trail_of_feed fed with ⟨jumping, _⟩ | ⟨_, ⟨status, _⟩ | header | inBody⟩
    · rw [last] at jumping
      cases jumping
    · simp [State.InStatus, last] at status
    · rw [HeaderTrail, last] at header
      exact absurd header id
    · rw [BodyTrail, last] at inBody
      obtain ⟨head', chunks, zeros, read, isSize, zero, split⟩ := inBody
      have sameHead : head.bytes = head'.bytes := chunkedHead_bytes_inj good chunked read.good
        read.chunked (by rw [split, List.append_assoc])
      rw [← sameHead, List.append_assoc, List.append_cancel_left_eq] at split
      refine ⟨chunks, ⟨read.wellFormed, zeros, isSize.ne_nil, (hexValue_eq_zero_iff isSize).mp zero,
        second, ?_⟩, ?_⟩
      · rw [split]
        simp
      · rw [response]
        refine holdChunks_of_chunkRead (read.stored.imp fun _ _ one => ?_)
        have grown := one.append (LF :: second)
        simpa using grown

/-- How a chunked body is decoded. -/
structure DecodesChunks (after text body : List Byte) : Prop where
  /-- It is completed with these contents just if it starts with chunks that have them. -/
  completed : ∀ contents, (parse after .fresh (text ++ body)).verdict = some .completed ∧
    HoldChunks (text ++ body) (parse after .fresh (text ++ body)).response.chunks contents ↔
      ∃ chunks, StartsWithChunks body chunks ∧ contents = chunks.map (·.data)
  /-- Whatever the verdict, the iterator stays in the buffer, and the views stored follow one
  another there. -/
  bounded : Bounded (text ++ body) text.length (parse after .fresh (text ++ body))

/-- Behind a text that opens the chunks of a response, for every body with sizes that the parser
can hold. -/
theorem decodesChunks (after : List Byte) {text : List Byte} (opens : OpensChunks text)
    (body : List Byte)
    (small : ∀ digits, Converts after (text ++ body) digits → hexValue digits < 2 ^ 31) :
    DecodesChunks after text body := by
  obtain ⟨head, good, chunked, rfl⟩ := opensChunks_iff.mp opens
  refine ⟨fun contents => ⟨?_, ?_⟩, ?_⟩
  · rintro ⟨completed, holds⟩
    obtain ⟨chunks, starts, holds'⟩ := startsWithChunks_of_completed good chunked completed
    exact ⟨chunks, starts, holds.eq holds'⟩
  · rintro ⟨chunks, starts, rfl⟩
    have smallChunks : ∀ chunk ∈ chunks, chunk.data.length < 2 ^ 31 := by
      obtain ⟨goodChunks, zeros, _, _, rest, rfl⟩ := starts
      rw [List.append_assoc] at small
      exact small_of_converts good chunked goodChunks small
    obtain ⟨res, parsed, holds⟩ :=
      parse_of_startsWithChunks after good chunked starts smallChunks
    rw [parsed]
    exact ⟨rfl, holds⟩
  · obtain ⟨l, inside, state, none⟩ := feed_chunkedHead after good chunked body
    have leads := feed_inBody head.bytes body state none (trail_of_feed inside)
    have whole : feed (turn after) [] (head.bytes ++ body) [] 0 (start .fresh) =
        feed (turn after) head.bytes body [] 0 l :=
      feed_append_of_inside (by rw [List.append_nil]; exact inside)
    cases ended : feed (turn after) head.bytes body [] 0 l with
    | left outcome =>
      rw [ended] at leads
      rw [parse_of_left (whole.trans ended)]
      exact leads
    | inside skip l' =>
      rw [ended] at leads
      have zero : skip = 0 := by
        have room := leads.room
        omega
      subst zero
      rw [parse_of_inside (whole.trans ended)]
      exact ⟨by simp, leads.laid.mono (by simp)⟩

section Example

/-- A head that opens chunks. -/
def chunkedHead : ResponseHead where
  line := ⟨ascii "1", ascii "200", ascii "OK"⟩
  junk := []
  lines := [⟨ascii "Transfer-Encoding", true, ascii "chunked"⟩]

/-- A chunk of ten bytes, a chunk of three, and the line of the last one. -/
def wholeBody : List Byte := ascii "A\r\n0123456789\r\n3\r\nabc\r\n0\r\n"

theorem decodesChunks_wholeBody : OpensChunks chunkedHead.bytes ∧
    DecodesChunks [] chunkedHead.bytes wholeBody ∧
    (parse [] .fresh (chunkedHead.bytes ++ wholeBody)).verdict = some .completed := by
  have good : chunkedHead.WellFormed := by
    refine ⟨⟨by decide, by decide, by decide, by decide⟩, List.forall_mem_nil _, ?_, ?_⟩
    · exact List.forall_mem_singleton.mpr ⟨by decide, by decide⟩
    · intro header there byte first
      cases there
      cases first
      rfl
  have opens := opensChunks_iff.mpr ⟨chunkedHead, good, by decide, rfl⟩
  have small : ∀ position < (chunkedHead.bytes ++ wholeBody).length,
      ∀ digits ∈ sizeAt [] (chunkedHead.bytes ++ wholeBody) position, hexValue digits < 2 ^ 31 := by
    decide +kernel
  refine ⟨opens, decodesChunks [] opens wholeBody ?_, by decide +kernel⟩
  rintro digits ⟨position, carriage, size⟩
  exact small position (List.getElem?_eq_some_iff.mp carriage).1 digits size

end Example

end ResponseParser

end Sheep
