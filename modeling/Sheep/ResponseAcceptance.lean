/-
This file proves that the response parser accepts its grammar and nothing else. A
reply is what it takes for a whole response: a head without header lines, a head
and the first byte of a body that is taken whole, or a head and chunks up to the
line of the last one. A buffer is completed just if it starts with a reply, of
which there is only one, and the response then holds it. It throws just if it
meets the size of a chunk that is too large. An error is final, unless the buffer
ends inside the data of a chunk.
-/

import Sheep.ResponseDecoding
import Sheep.ResponseRoundTrip

namespace Sheep

open ScanLoop

namespace ResponseParser

/-! ### Replies -/

/-- What follows a head: nothing, a body that is taken whole at its first byte, or chunks and the
size of the last one. -/
inductive ReplyBody
  | none
  | whole (first : Byte)
  | chunked (chunks : List ChunkText) (zeros : List Byte)
deriving DecidableEq, Repr

namespace ReplyBody

def bytes : ReplyBody → List Byte
  | .none => []
  | .whole first => [first]
  | .chunked chunks zeros => chunkBytes chunks ++ (zeros ++ crlf)

def chunks : ReplyBody → List ChunkText
  | .chunked chunks _ => chunks
  | _ => []

/-- The body is one that these header lines lead to. -/
def Follows (lines : List HeaderLine) : ReplyBody → Prop
  | .none => lines = []
  | .whole _ => lines ≠ [] ∧ lines.any announcesChunks = false
  | .chunked chunks zeros => lines.any announcesChunks = true ∧
      (∀ chunk ∈ chunks, chunk.WellFormed) ∧ (∀ chunk ∈ chunks, chunk.data.length < 2 ^ 31) ∧
      zeros ≠ [] ∧ ∀ byte ∈ zeros, byte = chr '0'

end ReplyBody

structure Reply where
  head : ResponseHead
  body : ReplyBody
deriving DecidableEq, Repr

namespace Reply

def bytes (reply : Reply) : List Byte := reply.head.bytes ++ reply.body.bytes

/-- A body that is taken whole reaches as far as the length that was announced, wherever the buffer
ends. -/
def content (memory : List Byte) (reply : Reply) : StringView :=
  match reply.body with
  | .whole _ => .range reply.head.bytes.length
      (reply.head.bytes.length + reply.head.announced memory)
  | _ => .empty

structure WellFormed (reply : Reply) : Prop where
  head : reply.head.WellFormed
  body : reply.body.Follows reply.head.lines

/-- The response holds the reply. The announced length is not stored. -/
structure Held (after buf : List Byte) (reply : Reply) (res : Response) : Prop where
  status : StatusRead reply.head.line buf res
  statusCode : res.statusCode = codeNumber reply.head.line.code
  headers : List.Forall₂ (HeaderRead buf) res.headers reply.head.lines
  isChunked : res.isChunked = reply.head.lines.any announcesChunks
  contentLength : res.contentLength = 0
  content : res.content = reply.content (buf ++ after)
  chunks : List.Forall₂ (ChunkRead buf) res.chunks reply.body.chunks

end Reply

/-- The size of a chunk that is too large, behind a chunked head and some chunks. -/
structure Oversized where
  head : ResponseHead
  chunks : List ChunkText
  digits : List Byte

namespace Oversized

/-- Up to the carriage return behind the size. -/
def bytes (oversized : Oversized) : List Byte :=
  oversized.head.bytes ++ chunkBytes oversized.chunks ++ (oversized.digits ++ [CR])

structure WellFormed (oversized : Oversized) : Prop where
  head : oversized.head.WellFormed
  chunked : oversized.head.lines.any announcesChunks = true
  chunks : ∀ chunk ∈ oversized.chunks, chunk.WellFormed
  small : ∀ chunk ∈ oversized.chunks, chunk.data.length < 2 ^ 31
  isSize : IsSize oversized.digits
  huge : 2 ^ 31 ≤ hexValue oversized.digits

end Oversized

/-- A chunk whose data has arrived, at least its first byte and at most all of it, and nothing of
what follows. -/
structure Torn where
  head : ResponseHead
  chunks : List ChunkText
  digits : List Byte
  data : List Byte

namespace Torn

def bytes (torn : Torn) : List Byte :=
  torn.head.bytes ++ chunkBytes torn.chunks ++ (torn.digits ++ crlf) ++ torn.data

structure WellFormed (torn : Torn) : Prop where
  head : torn.head.WellFormed
  chunked : torn.head.lines.any announcesChunks = true
  chunks : ∀ chunk ∈ torn.chunks, chunk.WellFormed
  small : ∀ chunk ∈ torn.chunks, chunk.data.length < 2 ^ 31
  isSize : IsSize torn.digits
  fits : hexValue torn.digits < 2 ^ 31
  begun : torn.data ≠ []
  short : torn.data.length ≤ hexValue torn.digits

end Torn

/-! ### Replies are accepted -/

variable (after : List Byte)

/-- Chunks go through behind their head. -/
theorem feed_headChunks {head : ResponseHead} {chunks : List ChunkText} (good : head.WellFormed)
    (chunked : head.lines.any announcesChunks = true)
    (goodChunks : ∀ chunk ∈ chunks, chunk.WellFormed)
    (small : ∀ chunk ∈ chunks, chunk.data.length < 2 ^ 31) (ahead : List Byte) :
    ∃ l, feed (turn after) [] (head.bytes ++ chunkBytes chunks) ahead 0 (start .fresh) =
        .inside 0 l ∧ l.state = .newChunkStart ∧
      HeadRead head.line head.lines head.bytes { l.res with chunks := [] } ∧
      List.Forall₂ (ChunkRead (head.bytes ++ chunkBytes chunks)) l.res.chunks chunks := by
  have nonempty : head.lines ≠ [] := by
    intro empty
    rw [empty] at chunked
    cases chunked
  obtain ⟨l, inside, state, read, _⟩ := feed_head after head good nonempty
    (chunkBytes chunks ++ ahead)
  obtain ⟨stored, l', inside', state', res, readChunks⟩ := feed_chunks after head.bytes chunks
    ahead goodChunks small (state.trans (if_pos chunked))
  refine ⟨l', by rw [feed_append_of_inside inside, List.nil_append, inside'], state', ?_, ?_⟩
  · rw [res]
    exact ⟨⟨read.status.version, read.status.codestr, read.status.status⟩, read.headers,
      read.isChunked, read.contentLength, read.content, rfl⟩
  · rw [res, read.chunks, List.nil_append]
    exact readChunks

/-- The status code is the one of the status line. -/
theorem statusCode_of_leaves {after rest : List Byte} {reply : Reply} {res : Response}
    (good : reply.WellFormed)
    (leaves : LeavesAt (turn after) (start .fresh) reply.bytes rest (.returned .completed res)) :
    res.statusCode = codeNumber reply.head.line.code := by
  have number := number_of_parse after reply.head.line good.head.line
    (reply.head.junk ++ headerBytes reply.head.lines ++ crlf ++ reply.body.bytes ++ rest)
  have shape : reply.head.line.bytes ++ (reply.head.junk ++ headerBytes reply.head.lines ++ crlf ++
      reply.body.bytes ++ rest) = reply.bytes ++ rest := by
    simp [Reply.bytes, ResponseHead.bytes]
  rw [shape, parse_of_left leaves.feed] at number
  exact number

theorem leaves_none {head : ResponseHead} (good : head.WellFormed) (none : head.lines = [])
    (rest : List Byte) :
    ∃ res, LeavesAt (turn after) (start .fresh) head.bytes rest (.returned .completed res) ∧
      HeadRead head.line head.lines head.bytes res := by
  obtain ⟨l, inside, ⟨_, state⟩ | ⟨some, _⟩, read⟩ :=
    (runs_upToLines after head good).feed ([CR] ++ LF :: rest)
  · refine ⟨l.res, ⟨head.line.bytes ++ head.junk ++ headerBytes head.lines ++ [CR], LF,
      { l with state := .statusMsgEndRnr }, [], by simp [ResponseHead.bytes], ?_, ?_⟩,
      read.append crlf⟩
    · rw [feed_append_of_inside inside, feed_cons_go]
      · rfl
      · rw [turn]
        simp only [state, if_true]
        rfl
    · simp only [turn, if_true]
  · exact absurd none some

theorem leaves_whole {head : ResponseHead} (good : head.WellFormed) (first : Byte)
    (nonempty : head.lines ≠ []) (noChunks : head.lines.any announcesChunks = false)
    (rest : List Byte) :
    ∃ res, LeavesAt (turn after) (start .fresh) (head.bytes ++ [first]) rest
        (.returned .completed { res with
          content := Reply.content (head.bytes ++ [first] ++ rest ++ after)
            ⟨head, .whole first⟩ }) ∧
      HeadRead head.line head.lines head.bytes res := by
  obtain ⟨l, inside, state, read, length⟩ := feed_head after head good nonempty (first :: rest)
  have inData : l.state = .dataStart := by
    rw [state, ResponseHead.bodyState, if_neg (by rw [noChunks]; exact Bool.false_ne_true)]
  have taken : turn after head.bytes first rest l = .leave (.returned .completed { l.res with
      content := .range head.bytes.length (head.bytes.length + l.contentLength) })
      [.range head.bytes.length (head.bytes.length + l.contentLength)] := by
    rw [turn]
    simp only [inData]
  rw [length, List.append_cons] at taken
  exact ⟨l.res, ⟨head.bytes, first, l, _, rfl, inside, taken⟩, read⟩

theorem leaves_chunked {head : ResponseHead} {chunks : List ChunkText} {zeros : List Byte}
    (good : head.WellFormed) (follows : (ReplyBody.chunked chunks zeros).Follows head.lines)
    (rest : List Byte) :
    ∃ res, LeavesAt (turn after) (start .fresh)
        (head.bytes ++ (chunkBytes chunks ++ (zeros ++ crlf))) rest (.returned .completed res) ∧
      HeadRead head.line head.lines head.bytes { res with chunks := [] } ∧
      List.Forall₂ (ChunkRead (head.bytes ++ chunkBytes chunks)) res.chunks chunks := by
  obtain ⟨chunked, goodChunks, small, nonempty, allZeros⟩ := follows
  have isSize := isSize_of_zeros nonempty allZeros
  have zero : hexValue zeros = 0 := (hexValue_eq_zero_iff isSize).mpr allZeros
  obtain ⟨l, inside, state, read, readChunks⟩ := feed_headChunks after good chunked goodChunks small
    (zeros ++ [CR] ++ LF :: rest)
  obtain ⟨_, inside', rfl⟩ := (runs_size after (head.bytes ++ chunkBytes chunks) state isSize
    (by rw [zero]; decide)).feed (LF :: rest)
  refine ⟨l.res, ⟨head.bytes ++ chunkBytes chunks ++ (zeros ++ [CR]), LF, _, [], by simp,
    (feed_append_of_inside inside).trans inside', ?_⟩, read, readChunks⟩
  rw [turn]
  simp only [zero, ne_eq, not_true_eq_false, if_false, if_true]

/-- The parser is done at the last byte of a reply, and then holds it. -/
theorem leaves_reply {reply : Reply} (good : reply.WellFormed) (rest : List Byte) :
    ∃ res, LeavesAt (turn after) (start .fresh) reply.bytes rest (.returned .completed res) ∧
      reply.Held after (reply.bytes ++ rest) res := by
  obtain ⟨head, body⟩ := reply
  have follows := good.body
  cases body with
  | none =>
    obtain ⟨res, leaves, read⟩ := leaves_none after good.head follows rest
    have grown := read.append rest
    have shape : Reply.bytes ⟨head, .none⟩ = head.bytes := List.append_nil _
    rw [shape]
    exact ⟨res, leaves, grown.status, statusCode_of_leaves good (shape.symm ▸ leaves),
      grown.headers, grown.isChunked, grown.contentLength, grown.content,
      by rw [grown.chunks]; exact .nil⟩
  | whole first =>
    obtain ⟨res, leaves, read⟩ := leaves_whole after good.head first follows.1 follows.2 rest
    have grown := read.append ([first] ++ rest)
    rw [← List.append_assoc] at grown
    exact ⟨_, leaves, ⟨grown.status.version, grown.status.codestr, grown.status.status⟩,
      statusCode_of_leaves good leaves, grown.headers, grown.isChunked, grown.contentLength, rfl,
      by rw [show Response.chunks _ = _ from grown.chunks]; exact .nil⟩
  | chunked chunks zeros =>
    obtain ⟨res, leaves, read, readChunks⟩ := leaves_chunked after good.head follows rest
    have grown := read.append (chunkBytes chunks ++ (zeros ++ crlf) ++ rest)
    rw [← List.append_assoc] at grown
    refine ⟨res, leaves, ⟨grown.status.version, grown.status.codestr, grown.status.status⟩,
      statusCode_of_leaves good leaves, grown.headers, grown.isChunked, grown.contentLength,
      grown.content, readChunks.imp fun _ _ one => ?_⟩
    have more := one.append (zeros ++ crlf ++ rest)
    simpa [Reply.bytes, ReplyBody.bytes] using more

/-! ### Nothing else is accepted -/

variable {after} {before ahead : List Byte} {curChar : Byte} {l : Locals}

/-- What the parser has read where it leaves. -/
def LeavesWith (read : List Byte) (outcome : Outcome) : Prop :=
  match outcome with
  | .returned .completed _ => ∃ reply : Reply, reply.WellFormed ∧ reply.bytes = read
  | .returned .inCompleted _ => False
  | .returned .error _ => True
  | .threw _ => ∃ oversized : Oversized, oversized.WellFormed ∧ oversized.bytes = read
  | .overran _ => False

/-- In the status line there are only errors. -/
theorem turn_inStatus (state : l.state.InStatus) :
    (turn after before curChar ahead l).Leads (fun _ _ => True)
      (fun outcome => outcome.verdict = some .error) := by
  obtain ⟨_, prevIt, headerName, contentLength, newChunkSize, res⟩ := l
  rcases state with rfl | rfl | rfl | rfl | rfl | rfl | rfl | rfl | rfl | rfl | rfl | rfl | rfl <;>
    · simp only [turn]
      repeat' split
      all_goals trivial

/-- In the header lines a reply ends at the empty line, if there is no header line. -/
theorem turn_headerTrail_leaves {memory : List Byte} (trail : HeaderTrail memory before l) :
    (turn after before curChar ahead l).Leads (fun _ _ => True)
      (LeavesWith (before ++ [curChar])) := by
  obtain ⟨state, prevIt, headerName, contentLength, newChunkSize, res⟩ := l
  cases state <;> simp only [HeaderTrail] at trail
  case statusMsgEndRnr =>
    obtain ⟨head, start, none, read, rfl⟩ := trail
    simp only [turn]
    split
    · rename_i feed
      refine ⟨⟨head, .none⟩, ⟨read.good, none⟩, ?_⟩
      rw [feed, read.bytes]
      simp [Reply.bytes, ReplyBody.bytes, ResponseHead.bytes]
    · trivial
  case headerValueStart =>
    simp only [turn, finishHeaderValue]
    repeat' split
    all_goals trivial
  all_goals
    simp only [turn]
    repeat' split
    all_goals trivial

/-- In a body a reply ends at the first byte, or behind the size of the last chunk. -/
theorem turn_bodyTrail_leaves {memory : List Byte} (trail : BodyTrail memory before l) :
    (turn after before curChar ahead l).Leads (fun _ _ => True)
      (LeavesWith (before ++ [curChar])) := by
  obtain ⟨state, prevIt, headerName, contentLength, newChunkSize, res⟩ := l
  cases state <;> simp only [BodyTrail] at trail
  case dataStart =>
    obtain ⟨head, done, noChunks, rfl⟩ := trail
    exact ⟨⟨head, .whole curChar⟩, ⟨done.good, done.nonempty, noChunks⟩, rfl⟩
  case chunkDataSize =>
    obtain ⟨head, chunks, digits, read, isSize, rfl, rfl⟩ := trail
    simp only [turn]
    split
    · trivial
    · split
      · rename_i carriage
        rw [carriage, stoi16_size after _ isSize]
        by_cases small : hexValue digits < 2 ^ 31
        · rw [if_pos small]
          simp only
          split <;> trivial
        · rw [if_neg small]
          exact ⟨⟨head, chunks, digits⟩, ⟨read.good, read.chunked, read.wellFormed, read.small,
            isSize, not_lt.mp small⟩, by simp [Oversized.bytes]⟩
      · trivial
  case zeroChunkSizeR =>
    obtain ⟨head, chunks, digits, read, isSize, zero, rfl⟩ := trail
    simp only [turn]
    split
    · rename_i feed
      refine ⟨⟨head, .chunked chunks digits⟩, ⟨read.good, read.chunked, read.wellFormed, read.small,
        isSize.ne_nil, (hexValue_eq_zero_iff isSize).mp zero⟩, ?_⟩
      rw [feed]
      simp [Reply.bytes, ReplyBody.bytes]
    · trivial
  case chunkDataSizeRn =>
    simp only [turn, takeChunk]
    split <;> trivial
  all_goals
    simp only [turn]
    repeat' split
    all_goals trivial

/-- Wherever the parser leaves, it has read a reply or an oversized chunk, or has met an error. -/
theorem turn_leavesWith {memory : List Byte} (trail : Trail memory before 0 l) :
    (turn after before curChar ahead l).Leads (fun _ _ => True)
      (LeavesWith (before ++ [curChar])) := by
  rcases trail with ⟨state, _⟩ | ⟨_, ⟨state, _⟩ | header | body⟩
  · rw [turn]
    simp only [state]
    split <;> trivial
  · refine (turn_inStatus state).mono (fun _ _ kept => kept) fun outcome failed => ?_
    obtain ⟨verdict, res⟩ | _ | _ := outcome
    · cases failed
      trivial
    · cases failed
    · cases failed
  · exact turn_headerTrail_leaves header
  · exact turn_bodyTrail_leaves body

theorem leavesWith_of_leavesAt {text rest : List Byte} {outcome : Outcome}
    (leaves : LeavesAt (turn after) (start .fresh) text rest outcome) :
    LeavesWith text outcome := by
  obtain ⟨opening, last, reached, notes, rfl, inside, leave⟩ := leaves
  have leads : (turn after opening last rest reached).Leads (fun _ _ => True)
      (LeavesWith (opening ++ [last])) := turn_leavesWith (trail_of_feed inside)
  rw [leave] at leads
  exact leads

/-- The data of a chunk is jumped over only inside the buffer: what ends inside jumps no further. -/
theorem skip_eq_zero_of_feed {buf : List Byte} {skip : Nat}
    (inside : feed (turn after) [] buf [] 0 (start .fresh) = .inside skip l) : skip = 0 := by
  rcases trail_of_feed inside with
    ⟨state, head, chunks, digits, data, stored, read, _, _, same, _⟩ | ⟨zero, _⟩
  · obtain ⟨l', inside', state', none⟩ := feed_chunkedHead after read.good read.chunked
      (chunkBytes chunks ++ (digits ++ crlf) ++ data)
    have split : buf = head.bytes ++ (chunkBytes chunks ++ (digits ++ crlf) ++ data) := by
      rw [same]
      simp
    have leads := feed_inBody head.bytes (chunkBytes chunks ++ (digits ++ crlf) ++ data) state' none
      (trail_of_feed inside')
    rw [split, feed_append_of_inside (by rw [List.append_nil]; exact inside'),
      List.nil_append] at inside
    rw [inside] at leads
    have room := leads.room
    omega
  · exact zero

/-! ### Errors -/

/-- Two loops that differ at most in the numbers they have read. -/
def SameUpToNumbers (l l' : Locals) : Prop :=
  ∃ statusCode contentLength, l' = { l with
    contentLength, res := { l.res with statusCode } }

/-- The second turn goes where the first one goes, if that is on or into an error. -/
def Goes : ParseTurn → ParseTurn → Prop
  | .leave outcome _, turned =>
      outcome.verdict = some .error → ∃ res notes, turned = .leave (.returned .error res) notes
  | .go next _, turned => ∃ next' notes, turned = .go next' notes ∧ SameUpToNumbers next next'
  | .jump count next _, turned =>
      ∃ next' notes, turned = .jump count next' notes ∧ SameUpToNumbers next next'

theorem goes_error (res res' : Response) (notes notes' : List StringView) :
    Goes (.leave (.returned .error res) notes) (.leave (.returned .error res') notes') :=
  fun _ => ⟨res', notes', rfl⟩

theorem goes_completed (res : Response) (notes : List StringView) (turned : ParseTurn) :
    Goes (.leave (.returned .completed res) notes) turned := fun failed => by cases failed

theorem goes_threw (res : Response) (notes : List StringView) (turned : ParseTurn) :
    Goes (.leave (.threw res) notes) turned := fun failed => by cases failed

theorem finishHeaderValue_goes (memory memory' before : List Byte) (it : Int) {l l' : Locals}
    (same : SameUpToNumbers l l') :
    Goes (finishHeaderValue memory before it l) (finishHeaderValue memory' before it l') := by
  obtain ⟨statusCode, contentLength, rfl⟩ := same
  unfold finishHeaderValue
  simp only
  split
  · exact ⟨_, _, rfl, _, _, rfl⟩
  · split
    · exact ⟨_, _, rfl, _, _, rfl⟩
    · exact ⟨_, _, rfl, _, _, rfl⟩

/-- With other bytes ahead a turn goes where it would have gone, unless the data of a chunk does not
fit into the buffer. -/
theorem turn_goes (after' more : List Byte) {memory : List Byte} {l l' : Locals}
    (trail : Trail memory before 0 l) (same : SameUpToNumbers l l')
    (fits : l.state = .chunkDataSizeRn → l.newChunkSize < (ahead.length : Int) + 1) :
    Goes (turn after before curChar ahead l) (turn after' before curChar (ahead ++ more) l') := by
  obtain ⟨statusCode, contentLength, rfl⟩ := same
  obtain ⟨state, prevIt, headerName, contentLength', newChunkSize, res⟩ := l
  cases state
  case headerValueStart =>
    simp only [turn]
    split
    · exact ⟨_, _, rfl, _, _, rfl⟩
    · split
      · exact finishHeaderValue_goes _ _ before _ ⟨_, _, rfl⟩
      · exact goes_error _ _ _ _
  case chunkDataSize =>
    rcases trail with ⟨jumping, _⟩ | ⟨_, ⟨status, _⟩ | header | body⟩
    · cases jumping
    · simp [State.InStatus] at status
    · exact absurd header id
    · obtain ⟨head, chunks, digits, read, isSize, rfl, starts⟩ := body
      simp only at starts
      subst starts
      simp only [turn]
      split
      · exact ⟨_, _, rfl, _, _, rfl⟩
      · split
        · rename_i carriage
          -- the carriage return ends the digits, whatever is behind it
          rw [carriage, stoi16_size after _ isSize, stoi16_size after' _ isSize]
          by_cases small : hexValue digits < 2 ^ 31
          · rw [if_pos small]
            simp only
            split
            · exact ⟨_, _, rfl, _, _, rfl⟩
            · exact ⟨_, _, rfl, _, _, rfl⟩
          · rw [if_neg small]
            exact goes_threw _ _ _
        · exact goes_error _ _ _ _
  case chunkDataSizeRn =>
    have enough := fits rfl
    simp only at enough
    simp only [turn, takeChunk]
    rw [if_pos enough, if_pos (by rw [List.length_append]; omega)]
    exact ⟨_, _, rfl, _, _, rfl⟩
  all_goals
    simp only [turn]
    repeat' split
    all_goals first
      | exact goes_completed _ _ _
      | exact goes_error _ _ _ _
      | exact ⟨_, _, rfl, _, _, rfl⟩

/-- A chunk that does not fit is torn. -/
theorem exists_torn {memory : List Byte} (trail : Trail memory before 0 l)
    (state : l.state = .chunkDataSizeRn) (tight : ¬ l.newChunkSize < (ahead.length : Int) + 1) :
    ∃ torn : Torn, torn.WellFormed ∧ torn.bytes = before ++ curChar :: ahead := by
  rcases trail with ⟨jumping, _⟩ | ⟨_, ⟨status, _⟩ | header | body⟩
  · rw [state] at jumping
    cases jumping
  · simp [State.InStatus, state] at status
  · rw [HeaderTrail, state] at header
    exact absurd header id
  · rw [BodyTrail, state] at body
    obtain ⟨head, chunks, digits, read, sized, rfl⟩ := body
    have short : (curChar :: ahead).length ≤ hexValue digits := by
      have value := sized.value
      rw [List.length_cons]
      omega
    exact ⟨⟨head, chunks, digits, curChar :: ahead⟩, ⟨read.good, read.chunked, read.wellFormed,
      read.small, sized.isSize, sized.small, List.cons_ne_nil _ _, short⟩, rfl⟩

theorem feed_error (after' more : List Byte) {input : List Byte} {skip : Nat} {l l' : Locals}
    {outcome : Outcome} (same : SameUpToNumbers l l')
    (trail : Trail (before ++ input ++ after) before skip l)
    (failed : outcome.verdict = some .error)
    (left : feed (turn after) before input [] skip l = .left outcome) :
    (∃ torn : Torn, torn.WellFormed ∧ torn.bytes = before ++ input) ∨
      ∃ res, feed (turn after') before (input ++ more) [] skip l' =
        .left (.returned .error res) := by
  induction input generalizing before skip l l' with
  | nil => cases left
  | cons symbol rest inductionHypothesis =>
    have shift : before ++ symbol :: rest = (before ++ [symbol]) ++ rest := by simp
    cases skip with
    | succ skip =>
      have further := trail.skipped symbol
      rw [shift] at further ⊢
      exact inductionHypothesis same further left
    | zero =>
      by_cases tight : l.state = .chunkDataSizeRn ∧ ¬ l.newChunkSize < (rest.length : Int) + 1
      · exact Or.inl (exists_torn trail tight.1 tight.2)
      have goes : Goes (turn after before symbol rest l)
          (turn after' before symbol (rest ++ more) l') := by
        refine turn_goes after' more trail same fun state => ?_
        by_contra not
        exact tight ⟨state, not⟩
      have leads : (turn after before symbol rest l).Leads
          (Trail (before ++ symbol :: rest ++ after) (before ++ [symbol])) (fun _ => True) :=
        turn_trail rfl trail
      rw [feed_cons, List.append_nil] at left
      rw [List.cons_append, feed_cons, List.append_nil]
      cases turned : turn after before symbol rest l with
      | leave outcome' notes =>
        rw [turned] at left goes
        cases left
        obtain ⟨res, notes', turned'⟩ := goes failed
        exact Or.inr ⟨res, by rw [turned']⟩
      | go next notes =>
        rw [turned] at left goes leads
        obtain ⟨next', notes', turned', same'⟩ := goes
        rw [shift] at leads ⊢
        rw [turned']
        exact inductionHypothesis same' leads left
      | jump count next notes =>
        rw [turned] at left goes leads
        obtain ⟨next', notes', turned', same'⟩ := goes
        rw [shift] at leads ⊢
        rw [turned']
        exact inductionHypothesis same' leads left

/-- An error is final, unless a chunk is torn. -/
theorem parse_append_of_error (after' : List Byte) {buf : List Byte}
    (failed : (parse after .fresh buf).verdict = some .error)
    (whole : ¬ ∃ torn : Torn, torn.WellFormed ∧ torn.bytes = buf) (more : List Byte) :
    (parse after' .fresh (buf ++ more)).verdict = some .error := by
  cases ended : feed (turn after) [] buf [] 0 (start .fresh) with
  | inside skip l =>
    obtain rfl := skip_eq_zero_of_feed ended
    rw [parse_of_inside ended] at failed
    cases failed
  | left outcome =>
    rw [parse_of_left ended] at failed
    rcases feed_error after' more (⟨_, _, rfl⟩ : SameUpToNumbers (start .fresh) (start .fresh))
      (trail_start _) failed ended with torn | ⟨res, left⟩
    · exact absurd torn whole
    · rw [parse_of_left left]
      rfl

/-- A torn chunk is refused at its first byte. -/
theorem parse_of_torn (after : List Byte) {torn : Torn} (good : torn.WellFormed) :
    (parse after .fresh torn.bytes).verdict = some .error := by
  obtain ⟨head, chunks, digits, data⟩ := torn
  obtain ⟨first, rest, rfl⟩ := List.exists_cons_of_ne_nil good.begun
  have positive : hexValue digits ≠ 0 := by
    have short : rest.length + 1 ≤ hexValue digits := good.short
    omega
  obtain ⟨l, inside, state, _⟩ :=
    feed_headChunks after good.head good.chunked good.chunks good.small
      (digits ++ crlf ++ first :: rest)
  obtain ⟨_, inside', rfl⟩ := (runs_sizeLine after (head.bytes ++ chunkBytes chunks) state
    good.isSize good.fits positive).feed (first :: rest)
  have refused : turn after (head.bytes ++ chunkBytes chunks ++ (digits ++ crlf)) first rest
      { l with
        state := .chunkDataSizeRn
        prevIt := (head.bytes ++ chunkBytes chunks).length
        newChunkSize := hexValue digits } = .leave (.returned .error l.res) := by
    rw [turn]
    simp only [takeChunk]
    rw [if_neg]
    have short : rest.length + 1 ≤ hexValue digits := good.short
    omega
  have left : feed (turn after) [] (Torn.bytes ⟨head, chunks, digits, first :: rest⟩) [] 0
      (start .fresh) = .left (.returned .error l.res) := by
    rw [Torn.bytes, List.append_assoc (head.bytes ++ chunkBytes chunks),
      feed_append_of_inside (by rw [List.append_nil]; exact inside),
      feed_append_of_inside (by rw [List.append_nil]; exact inside'),
      feed_cons_leave (by rw [List.append_nil]; exact refused)]
  rw [parse_of_left left]
  rfl

/-- A torn chunk can be mended: with the rest of its data and the last chunk behind it the same
bytes start a reply. -/
theorem exists_reply_of_torn {torn : Torn} (good : torn.WellFormed) :
    ∃ more, ∃ reply : Reply, reply.WellFormed ∧ reply.bytes = torn.bytes ++ more := by
  obtain ⟨head, chunks, digits, data⟩ := torn
  have short : data.length ≤ hexValue digits := good.short
  have missing : (data ++ List.replicate (hexValue digits - data.length) 0).length =
      hexValue digits := by
    rw [List.length_append, List.length_replicate]
    omega
  refine ⟨List.replicate (hexValue digits - data.length) 0 ++ (crlf ++ ([chr '0'] ++ crlf)),
    ⟨head, .chunked (chunks ++
      [⟨digits, data ++ List.replicate (hexValue digits - data.length) 0⟩]) [chr '0']⟩,
    ⟨good.head, good.chunked, ?_, ?_, List.cons_ne_nil _ _, List.forall_mem_singleton.mpr rfl⟩, ?_⟩
  · intro chunk member
    rcases List.mem_append.mp member with old | new
    · exact good.chunks chunk old
    · rw [List.mem_singleton.mp new]
      exact ⟨good.isSize, missing.symm, fun empty =>
        good.begun (List.append_eq_nil_iff.mp empty).1⟩
  · intro chunk member
    rcases List.mem_append.mp member with old | new
    · exact good.small chunk old
    · rw [List.mem_singleton.mp new]
      exact lt_of_eq_of_lt missing good.fits
  · simp [Reply.bytes, ReplyBody.bytes, Torn.bytes, chunkBytes_snoc, ChunkText.bytes]

/-! ### The grammar -/

/-- What a buffer is taken for. -/
structure AcceptsReplies (after buf : List Byte) : Prop where
  /-- It is completed just if it starts with a reply. -/
  completed : (parse after .fresh buf).verdict = some .completed ↔
    ∃ reply : Reply, reply.WellFormed ∧ reply.bytes <+: buf
  /-- The response then holds that reply, and every other one ends at the same byte. -/
  held : ∀ reply : Reply, reply.WellFormed → reply.bytes <+: buf →
    reply.Held after buf (parse after .fresh buf).response ∧
      ∀ other : Reply, other.WellFormed → other.bytes <+: buf → other.bytes = reply.bytes
  /-- It throws just if it starts with the size of a chunk that is too large. -/
  threw : (∃ res, parse after .fresh buf = .threw res) ↔
    ∃ oversized : Oversized, oversized.WellFormed ∧ oversized.bytes <+: buf
  /-- The iterator stays in the buffer. -/
  inside : ∀ res, parse after .fresh buf ≠ .overran res
  /-- A torn chunk is an error, which the rest of the chunk would have turned into a completed
  reply. -/
  torn : ∀ torn : Torn, torn.WellFormed → torn.bytes = buf →
    (parse after .fresh buf).verdict = some .error ∧
      ∃ more, (parse after .fresh (buf ++ more)).verdict = some .completed
  /-- Every other error stays one on every extension. -/
  final : (parse after .fresh buf).verdict = some .error →
    (¬ ∃ torn : Torn, torn.WellFormed ∧ torn.bytes = buf) →
    ∀ after' more, (parse after' .fresh (buf ++ more)).verdict = some .error

/-- How a buffer that starts with the size of a chunk that is too large is parsed. -/
theorem parse_of_oversized (after : List Byte) {oversized : Oversized}
    (good : oversized.WellFormed) (rest : List Byte) :
    ∃ res, parse after .fresh (oversized.bytes ++ rest) = .threw res := by
  obtain ⟨head, chunks, digits⟩ := oversized
  obtain ⟨l, inside, state, _⟩ :=
    feed_headChunks after good.head good.chunked good.chunks good.small (digits ++ CR :: rest)
  have shape : Oversized.bytes ⟨head, chunks, digits⟩ ++ rest =
      head.bytes ++ chunkBytes chunks ++ (digits ++ CR :: rest) := by
    simp [Oversized.bytes]
  refine ⟨l.res, ?_⟩
  rw [shape]
  refine parse_of_left ?_
  rw [feed_append_of_inside (by rw [List.append_nil]; exact inside)]
  exact feed_hugeSize after _ state good.isSize good.huge

theorem acceptsReplies (after buf : List Byte) : AcceptsReplies after buf := by
  -- what the parser leaves with is what it has read
  have ended : (∃ res, parse after .fresh buf = .returned .inCompleted res) ∨
      ∃ read rest, buf = read ++ rest ∧ LeavesWith read (parse after .fresh buf) := by
    cases ended : feed (turn after) [] buf [] 0 (start .fresh) with
    | inside skip l =>
      obtain rfl := skip_eq_zero_of_feed ended
      exact Or.inl ⟨l.res, parse_of_inside ended⟩
    | left outcome =>
      obtain ⟨read, rest, split, leaves⟩ := exists_leavesAt_of_feed ended
      rw [parse_of_left ended]
      exact Or.inr ⟨read, rest, split, leavesWith_of_leavesAt leaves⟩
  have parsed {reply : Reply} (good : reply.WellFormed) {rest : List Byte}
      (split : buf = reply.bytes ++ rest) :
      ∃ res, LeavesAt (turn after) (start .fresh) reply.bytes rest (.returned .completed res) ∧
        parse after .fresh buf = .returned .completed res ∧ reply.Held after buf res := by
    obtain ⟨res, leaves, held⟩ := leaves_reply after good rest
    exact ⟨res, leaves, by rw [split]; exact parse_of_left leaves.feed, by rw [split]; exact held⟩
  constructor
  · constructor
    · intro completed
      rcases ended with ⟨res, incomplete⟩ | ⟨read, rest, split, with'⟩
      · rw [incomplete] at completed
        cases completed
      · cases outcome : parse after .fresh buf with
        | returned verdict res =>
          rw [outcome] at completed with'
          cases completed
          obtain ⟨reply, good, rfl⟩ := with'
          exact ⟨reply, good, rest, split.symm⟩
        | threw res =>
          rw [outcome] at completed
          cases completed
        | overran res =>
          rw [outcome] at completed
          cases completed
    · rintro ⟨reply, good, rest, split⟩
      obtain ⟨res, _, same, _⟩ := parsed good split.symm
      rw [same]
      rfl
  · rintro reply good ⟨rest, split⟩
    obtain ⟨res, leaves, same, held⟩ := parsed good split.symm
    refine ⟨by rw [same]; exact held, ?_⟩
    rintro other good' ⟨rest', split'⟩
    obtain ⟨_, leaves', _⟩ := parsed good' split'.symm
    exact leaves'.unique leaves (split'.trans split.symm)
  · constructor
    · rintro ⟨res, thrown⟩
      rcases ended with ⟨_, incomplete⟩ | ⟨read, rest, split, with'⟩
      · rw [incomplete] at thrown
        cases thrown
      · rw [thrown] at with'
        obtain ⟨oversized, good, rfl⟩ := with'
        exact ⟨oversized, good, rest, split.symm⟩
    · rintro ⟨oversized, good, rest, rfl⟩
      exact parse_of_oversized after good rest
  · intro res overran
    rcases ended with ⟨_, incomplete⟩ | ⟨read, rest, split, with'⟩
    · rw [incomplete] at overran
      cases overran
    · rw [overran] at with'
      exact with'
  · rintro torn good rfl
    refine ⟨parse_of_torn after good, ?_⟩
    obtain ⟨more, reply, good', same⟩ := exists_reply_of_torn good
    obtain ⟨res, leaves, _⟩ := leaves_reply after good' []
    refine ⟨more, ?_⟩
    rw [← same, ← List.append_nil reply.bytes, parse_of_left leaves.feed]
    rfl
  · exact fun failed whole after' more => parse_append_of_error after' failed whole more

end ResponseParser

end Sheep
