/-
This file describes what the response parser must have read to be where it is:
the trail of a state gives the bytes read so far as a part of the grammar, with
the length announced by the header lines and the chunks taken, and every turn
keeps it. While the data of a chunk is jumped over the trail counts down with it.
-/

import Sheep.ResponseChunks

namespace Sheep

open ScanLoop

namespace ResponseParser

/-! ### The trail of a status line -/

abbrev IsVersion (text : List Byte) : Prop :=
  Token (isDigit · = true) (fun byte => isDigit byte = true ∨ byte = chr '.') text

abbrev IsCode (text : List Byte) : Prop := Token (isDigit · = true) (isDigit · = true) text

/-- A status line up to the space after its version. -/
def versionOpening (version : List Byte) : List Byte := ascii "HTTP/" ++ (version ++ [SP])

/-- A status line up to its reason phrase. -/
def codeOpening (version code : List Byte) : List Byte :=
  versionOpening version ++ (code ++ [SP])

/-- The version and the status code have been read and stored. -/
structure Coded (version code before : List Byte) (res : Response) : Prop where
  isVersion : IsVersion version
  isCode : IsCode code
  version : res.version.text before = some version
  codestr : res.codestr.text before = some code

theorem Coded.append {version code before : List Byte} {res : Response}
    (coded : Coded version code before res) (more : List Byte) :
    Coded version code (before ++ more) res :=
  ⟨coded.isVersion, coded.isCode, StringView.text_append coded.version more,
    StringView.text_append coded.codestr more⟩

/-- What has been read of a status line in each of its states. -/
def StatusTrail (before : List Byte) (l : Locals) : Prop :=
  match l.state with
  | .statusStart => before = []
  | .statusStartH => before = ascii "H"
  | .statusStartHt => before = ascii "HT"
  | .statusStartHtt => before = ascii "HTT"
  | .statusStartHttp => before = ascii "HTTP"
  | .httpEnd => before = ascii "HTTP/"
  | .versionStart => ∃ version, IsVersion version ∧ before = ascii "HTTP/" ++ version ∧
      l.prevIt = (ascii "HTTP/").length
  | .versionEnd => ∃ version, IsVersion version ∧ before = versionOpening version ∧
      l.res.version.text before = some version
  | .statusCodeStart => ∃ version code, IsVersion version ∧ IsCode code ∧
      before = versionOpening version ++ code ∧ l.res.version.text before = some version ∧
      l.prevIt = (versionOpening version).length
  | .statusCodeEnd => ∃ version code, Coded version code before l.res ∧
      before = codeOpening version code
  | .statusMsgStart => ∃ version code first, Coded version code before l.res ∧ Plain first ∧
      before = codeOpening version code ++ [first] ∧
      l.prevIt = (codeOpening version code).length
  | .statusMsg => ∃ version code reason, Coded version code before l.res ∧
      Token Plain Plain reason ∧ 2 ≤ reason.length ∧ before = codeOpening version code ++ reason ∧
      l.prevIt = (codeOpening version code).length
  | .statusMsgEnd => ∃ line : StatusLine, line.WellFormed ∧ before ++ [LF] = line.bytes ∧
      StatusRead line before l.res
  | _ => False

/-- The states of the status line. -/
def State.InStatus (state : State) : Prop :=
  state = .statusStart ∨ state = .statusStartH ∨ state = .statusStartHt ∨
    state = .statusStartHtt ∨ state = .statusStartHttp ∨ state = .httpEnd ∨
    state = .versionStart ∨ state = .versionEnd ∨ state = .statusCodeStart ∨
    state = .statusCodeEnd ∨ state = .statusMsgStart ∨ state = .statusMsg ∨
    state = .statusMsgEnd

variable {after before ahead : List Byte} {curChar : Byte} {l : Locals}

/-- A turn in the status line stores nothing else. -/
theorem turn_onlyStatus (only : OnlyStatus l) (state : l.state.InStatus) :
    (turn after before curChar ahead l).Leads (fun _ next => OnlyStatus next)
      (fun _ => True) := by
  obtain ⟨_, prevIt, headerName, contentLength, newChunkSize, res⟩ := l
  obtain ⟨none, statusCode, codestr, status, version, same⟩ := only
  simp only at none same
  subst none same
  rcases state with rfl | rfl | rfl | rfl | rfl | rfl | rfl | rfl | rfl | rfl | rfl | rfl | rfl <;>
    · simp only [turn]
      repeat' split
      all_goals first | trivial | exact ⟨rfl, _, _, _, _, rfl⟩

/-- A turn in the status line keeps its trail, or ends the line. -/
theorem turn_statusTrail (trail : StatusTrail before l) :
    (turn after before curChar ahead l).Leads
      (fun skip next => skip = 0 ∧ (StatusTrail (before ++ [curChar]) next ∨
        next.state = .statusMsgEndRn ∧ ∃ line : StatusLine, line.WellFormed ∧
          before ++ [curChar] = line.bytes ∧ StatusRead line (before ++ [curChar]) next.res))
      (fun _ => True) := by
  obtain ⟨state, prevIt, headerName, contentLength, newChunkSize, res⟩ := l
  cases state <;> simp only [StatusTrail] at trail
  case statusStart | statusStartH | statusStartHt | statusStartHtt | statusStartHttp =>
    subst trail
    simp only [turn]
    split
    · first | trivial | (rename_i same; exact ⟨rfl, Or.inl (by rw [same]; rfl)⟩)
    · first | trivial | (rename_i same; exact ⟨rfl, Or.inl (by rw [not_not.mp same]; rfl)⟩)
  case httpEnd =>
    subst trail
    simp only [turn]
    split
    · rename_i digit
      exact ⟨rfl, Or.inl ⟨[curChar], token_singleton digit, rfl, rfl⟩⟩
    · trivial
  case versionStart =>
    obtain ⟨version, isVersion, rfl, rfl⟩ := trail
    simp only [turn]
    split
    · rename_i digitOrDot
      refine ⟨rfl, Or.inl ⟨version ++ [curChar], isVersion.snoc ?_, by simp, rfl⟩⟩
      by_cases digit : isDigit curChar = true
      · exact Or.inl digit
      · exact Or.inr (by simpa [digit] using digitOrDot)
    · split
      · rename_i space
        refine ⟨rfl, Or.inl ⟨version, isVersion, ?_, ?_⟩⟩
        · rw [space, versionOpening, List.append_assoc]
        · exact StringView.text_range _ version [curChar] rfl rfl rfl
      · trivial
  case versionEnd =>
    obtain ⟨version, isVersion, rfl, stored⟩ := trail
    simp only [turn]
    split
    · rename_i digit
      exact ⟨rfl, Or.inl ⟨version, [curChar], isVersion, token_singleton digit, rfl,
        StringView.text_append stored _, rfl⟩⟩
    · trivial
  case statusCodeStart =>
    obtain ⟨version, code, isVersion, isCode, rfl, stored, rfl⟩ := trail
    simp only [turn]
    split
    · rename_i digit
      exact ⟨rfl, Or.inl ⟨version, code ++ [curChar], isVersion, isCode.snoc digit, by simp,
        StringView.text_append stored _, rfl⟩⟩
    · split
      · rename_i space
        split
        · refine ⟨rfl, Or.inl ⟨version, code, ⟨isVersion, isCode, StringView.text_append stored _,
            ?_⟩, ?_⟩⟩
          · exact StringView.text_range _ code [curChar] rfl rfl rfl
          · rw [space, codeOpening, List.append_assoc]
        · trivial
      · trivial
  case statusCodeEnd =>
    obtain ⟨version, code, coded, rfl⟩ := trail
    simp only [turn]
    split
    · rename_i plain
      exact ⟨rfl, Or.inl ⟨version, code, curChar, coded.append _, by simpa using plain, rfl, rfl⟩⟩
    · trivial
  case statusMsgStart =>
    obtain ⟨version, code, first, coded, plainFirst, rfl, rfl⟩ := trail
    simp only [turn]
    split
    · rename_i plain
      refine ⟨rfl, Or.inl ⟨version, code, [first, curChar], coded.append _,
        ⟨plainFirst, List.forall_mem_singleton.mpr (by simpa using plain)⟩, Nat.le_refl 2, by simp,
        rfl⟩⟩
    · trivial
  case statusMsg =>
    obtain ⟨version, code, reason, coded, plainReason, two, rfl, rfl⟩ := trail
    simp only [turn]
    split
    · rename_i carriage
      have more := coded.append [curChar]
      refine ⟨rfl, Or.inl ⟨⟨version, code, reason⟩,
        ⟨coded.isVersion, coded.isCode, plainReason, two⟩,
        ?_, more.version, more.codestr, ?_⟩⟩
      · rw [carriage]
        simp [StatusLine.bytes, codeOpening, versionOpening]
      · exact StringView.text_range _ reason [curChar] rfl rfl rfl
    · split
      · trivial
      · rename_i plain
        refine ⟨rfl, Or.inl ⟨version, code, reason ++ [curChar], coded.append _,
          plainReason.snoc (by simpa using plain), ?_, by simp, rfl⟩⟩
        rw [List.length_append]
        omega
  case statusMsgEnd =>
    obtain ⟨line, good, same, read⟩ := trail
    simp only [turn]
    split
    · rename_i feed
      exact ⟨rfl, Or.inr ⟨rfl, line, good, by rw [feed, same], read.append _⟩⟩
    · trivial

/-! ### The trail of header lines -/

/-- A head has been read up to here, without the empty line. -/
structure LinesRead (memory : List Byte) (head : ResponseHead) (before : List Byte)
    (contentLength : Int) (res : Response) : Prop where
  good : head.WellFormed
  bytes : before = head.line.bytes ++ head.junk ++ headerBytes head.lines
  read : HeadRead head.line head.lines before res
  length : contentLength = head.announced memory

/-- All header lines of a head have been read, and there are some. -/
structure HeadDone (memory : List Byte) (head : ResponseHead) (before : List Byte)
    (contentLength : Int) (res : Response) : Prop where
  good : head.WellFormed
  nonempty : head.lines ≠ []
  read : HeadRead head.line head.lines before res
  length : contentLength = head.announced memory

/-- A name can begin the next header line of a head. -/
structure NameOpen (memory : List Byte) (head : ResponseHead) (start name : List Byte)
    (contentLength : Int) (res : Response) : Prop where
  isName : Token Plain (fun byte => Plain byte ∧ byte ≠ chr ':') name
  alnum : head.lines = [] → ∀ byte ∈ name.head?, isAlnum byte = true
  read : LinesRead memory head start contentLength res

/-- What has been read in each state of the header lines. -/
def HeaderTrail (memory before : List Byte) (l : Locals) : Prop :=
  match l.state with
  | .statusMsgEndRn => ∃ head, head.lines = [] ∧
      LinesRead memory head before l.contentLength l.res
  | .statusMsgEndRnr => ∃ head start, head.lines = [] ∧
      LinesRead memory head start l.contentLength l.res ∧ before = start ++ [CR]
  | .headerName => ∃ head start name, NameOpen memory head start name l.contentLength l.res ∧
      before = start ++ name ∧ l.prevIt = start.length
  | .headerNameEnd => ∃ head start name, NameOpen memory head start name l.contentLength l.res ∧
      l.headerName = .range start.length (start ++ name).length ∧
      before = start ++ name ++ [chr ':']
  | .headerNameValueSpace => ∃ head start name,
      NameOpen memory head start name l.contentLength l.res ∧
      l.headerName = .range start.length (start ++ name).length ∧
      before = start ++ name ++ [chr ':', SP]
  | .headerValueStart => ∃ head start header,
      NameOpen memory head start header.name l.contentLength l.res ∧
      l.headerName = .range start.length (start ++ header.name).length ∧ GoodLine header ∧
      before = start ++ header.name ++ colonText header.spaced ++ header.value ∧
      l.prevIt = (start ++ header.name ++ colonText header.spaced).length
  | .headerR => ∃ head, HeadDone memory head before l.contentLength l.res ∧
      before ++ [LF] = head.line.bytes ++ head.junk ++ headerBytes head.lines
  | .headerRn => ∃ head, HeadDone memory head before l.contentLength l.res ∧
      before = head.line.bytes ++ head.junk ++ headerBytes head.lines
  | .headerRnr => ∃ head, HeadDone memory head before l.contentLength l.res ∧
      before = head.line.bytes ++ head.junk ++ headerBytes head.lines ++ [CR]
  | _ => False

variable {memory : List Byte}

theorem HeadDone.append {head : ResponseHead} {contentLength : Int} {res : Response}
    (done : HeadDone memory head before contentLength res) (more : List Byte) :
    HeadDone memory head (before ++ more) contentLength res :=
  ⟨done.good, done.nonempty, done.read.append more, done.length⟩

theorem HeadDone.linesRead {head : ResponseHead} {contentLength : Int} {res : Response}
    (done : HeadDone memory head before contentLength res)
    (same : before = head.line.bytes ++ head.junk ++ headerBytes head.lines) :
    LinesRead memory head before contentLength res :=
  ⟨done.good, same, done.read, done.length⟩

/-- A head with one header line more. -/
def ResponseHead.snoc (head : ResponseHead) (header : HeaderLine) : ResponseHead :=
  { head with lines := head.lines ++ [header] }

theorem ResponseHead.snoc_wellFormed {head : ResponseHead} {header : HeaderLine}
    (good : head.WellFormed) (goodLine : GoodLine header)
    (alnum : head.lines = [] → ∀ byte ∈ header.name.head?, isAlnum byte = true) :
    (head.snoc header).WellFormed := by
  refine ⟨good.line, good.junk, fun other member => ?_, fun first isFirst => ?_⟩
  · rcases List.mem_append.mp member with old | new
    · exact good.lines other old
    · rw [List.mem_singleton.mp new]
      exact goodLine
  · cases lines : head.lines with
    | nil =>
      rw [ResponseHead.snoc, lines] at isFirst
      injection isFirst with same
      exact same ▸ alnum lines
    | cons head' rest =>
      rw [ResponseHead.snoc, lines] at isFirst
      exact good.alnum first (by rw [lines]; exact isFirst)

/-- The carriage return after a value ends its header line. -/
theorem finishHeaderValue_headerTrail {head : ResponseHead} {start : List Byte}
    {header : HeaderLine} (opened : NameOpen memory head start header.name l.contentLength l.res)
    (named : l.headerName = .range start.length (start ++ header.name).length)
    (good : GoodLine header)
    (split : before = start ++ header.name ++ colonText header.spaced ++ header.value)
    (starts : l.prevIt = (start ++ header.name ++ colonText header.spaced).length) :
    (finishHeaderValue memory before before.length l).Leads
      (fun skip next => skip = 0 ∧ HeaderTrail memory (before ++ [CR]) next) (fun _ => True) := by
  have shape : before =
      start ++ (header.name ++ (colonText header.spaced ++ header.value)) := by
    rw [split]
    simp
  have position : l.prevIt = start.length + valueOffset header := by
    rw [starts, List.length_append, List.length_append, length_colonText, valueOffset]
    omega
  obtain ⟨next, notes, turned, state, read, length, _⟩ :=
    finishHeaderValue_read memory header opened.read.read position named
  have counted : start.length =
      (head.line.bytes ++ head.junk).length + (headerBytes head.lines).length := by
    rw [opened.read.bytes, List.length_append]
  rw [shape, turned]
  refine ⟨rfl, ?_⟩
  rw [HeaderTrail, state]
  refine ⟨head.snoc header, ⟨ResponseHead.snoc_wellFormed opened.read.good good opened.alnum,
    by simp [ResponseHead.snoc], read.append [CR], ?_⟩, ?_⟩
  · rw [length, counted, ResponseHead.announced, ResponseHead.snoc, announcedLength_snoc,
      opened.read.length, ResponseHead.announced]
  · rw [ResponseHead.snoc, headerBytes_snoc, opened.read.bytes]
    simp [HeaderLine.bytes]

/-- A turn in the header lines keeps their trail, or ends the head. -/
theorem turn_headerTrail (whole : memory = before ++ curChar :: ahead ++ after)
    (trail : HeaderTrail memory before l) :
    (turn after before curChar ahead l).Leads
      (fun skip next => skip = 0 ∧ (HeaderTrail memory (before ++ [curChar]) next ∨
        ∃ head, HeadDone memory head head.bytes next.contentLength next.res ∧
          before ++ [curChar] = head.bytes ∧ next.state = head.bodyState))
      (fun _ => True) := by
  obtain ⟨state, prevIt, headerName, contentLength, newChunkSize, res⟩ := l
  cases state <;> simp only [HeaderTrail] at trail
  case statusMsgEndRn =>
    obtain ⟨head, none, read⟩ := trail
    simp only [turn]
    split
    · rename_i carriage
      exact ⟨rfl, Or.inl ⟨head, before, none, read, by rw [carriage]⟩⟩
    · rename_i notEnd
      split
      · rename_i alnum
        refine ⟨rfl, Or.inl ⟨head, before, [curChar], ⟨token_singleton (plain_of_isAlnum alnum), ?_,
          read⟩, rfl, rfl⟩⟩
        rintro _ byte ⟨rfl⟩
        exact alnum
      · rename_i notAlnum
        -- a skipped byte
        refine ⟨rfl, Or.inl ⟨{ head with junk := head.junk ++ [curChar] }, none,
          ⟨read.good.line, fun byte member => ?_, read.good.lines, read.good.alnum⟩, ?_,
          read.read.append _, ?_⟩⟩
        · rcases List.mem_append.mp member with old | new
          · exact read.good.junk byte old
          · rw [List.mem_singleton.mp new]
            exact ⟨notEnd, by simpa using notAlnum⟩
        · rw [read.bytes, none]
          simp [headerBytes]
        · have length := read.length
          rw [ResponseHead.announced, none] at length ⊢
          exact length
  case statusMsgEndRnr =>
    simp only [turn]
    split <;> trivial
  case headerName =>
    obtain ⟨head, start, name, opened, rfl, rfl⟩ := trail
    simp only [turn]
    split
    · rename_i colon
      exact ⟨rfl, Or.inl ⟨head, start, name, opened, rfl, by rw [colon]⟩⟩
    · rename_i notColon
      split
      · trivial
      · rename_i plain
        refine ⟨rfl, Or.inl ⟨head, start, name ++ [curChar],
          ⟨opened.isName.snoc ⟨by simpa using plain, notColon⟩, fun none byte first => ?_,
            opened.read⟩, by simp, rfl⟩⟩
        refine opened.alnum none byte ?_
        rw [List.head?_append_of_ne_nil _ opened.isName.ne_nil] at first
        exact first
  case headerNameEnd =>
    obtain ⟨head, start, name, opened, rfl, rfl⟩ := trail
    simp only [turn]
    split
    · rename_i space
      refine ⟨rfl, Or.inl ⟨head, start, name, opened, rfl, ?_⟩⟩
      rw [space]
      simp
    · rename_i notSpace
      split
      · rename_i plain
        exact ⟨rfl, Or.inl ⟨head, start, ⟨name, false, [curChar]⟩, opened, rfl,
          ⟨opened.isName, token_singleton ⟨by simpa using plain, fun _ => notSpace⟩⟩, rfl, rfl⟩⟩
      · trivial
  case headerNameValueSpace =>
    obtain ⟨head, start, name, opened, rfl, rfl⟩ := trail
    simp only [turn]
    split
    · rename_i plain
      exact ⟨rfl, Or.inl ⟨head, start, ⟨name, true, [curChar]⟩, opened, rfl,
        ⟨opened.isName, token_singleton ⟨by simpa using plain, fun never => by cases never⟩⟩, rfl,
        rfl⟩⟩
    · trivial
  case headerValueStart =>
    obtain ⟨head, start, header, opened, named, good, split, starts⟩ := trail
    simp only [turn]
    split
    · rename_i plain
      refine ⟨rfl, Or.inl ⟨head, start, { header with value := header.value ++ [curChar] }, opened,
        named, ⟨good.name, good.value.snoc (by simpa using plain)⟩, ?_, starts⟩⟩
      rw [split]
      simp
    · split
      · rename_i carriage
        rw [← whole, carriage]
        exact (finishHeaderValue_headerTrail opened named good split starts).mono
          (fun skip next kept => ⟨kept.1, Or.inl kept.2⟩) fun _ _ => trivial
      · trivial
  case headerR =>
    obtain ⟨head, done, same⟩ := trail
    simp only [turn]
    split
    · rename_i feed
      exact ⟨rfl, Or.inl ⟨head, done.append _, by rw [feed, same]⟩⟩
    · trivial
  case headerRn =>
    obtain ⟨head, done, same⟩ := trail
    simp only [turn]
    split
    · rename_i carriage
      exact ⟨rfl, Or.inl ⟨head, done.append _, by rw [same, carriage]⟩⟩
    · split
      · rename_i plain
        exact ⟨rfl, Or.inl ⟨head, before, [curChar], ⟨token_singleton (by simpa using plain),
          fun none => absurd none done.nonempty, done.linesRead same⟩, rfl, rfl⟩⟩
      · trivial
  case headerRnr =>
    obtain ⟨head, done, same⟩ := trail
    have ended (feed : curChar = LF) : before ++ [curChar] = head.bytes := by
      rw [same, feed]
      simp [ResponseHead.bytes]
    have chunked := done.read.isChunked
    simp only [turn]
    split
    · rename_i feed
      have finished := done.append [curChar]
      rw [ended feed] at finished
      split
      · rename_i isChunked
        refine ⟨rfl, Or.inr ⟨head, finished, ended feed, ?_⟩⟩
        rw [ResponseHead.bodyState, ← chunked, if_pos isChunked]
      · rename_i notChunked
        refine ⟨rfl, Or.inr ⟨head, finished, ended feed, ?_⟩⟩
        rw [ResponseHead.bodyState, ← chunked, if_neg notChunked]
    · trivial

/-! ### The trail of a body -/

/-- The head of a chunked response and some chunks have been read. -/
structure ChunksRead (head : ResponseHead) (chunks : List ChunkText) (before : List Byte)
    (res : Response) : Prop where
  good : head.WellFormed
  nonempty : head.lines ≠ []
  chunked : head.lines.any announcesChunks = true
  head : HeadRead head.line head.lines head.bytes { res with chunks := [] }
  wellFormed : ∀ chunk ∈ chunks, chunk.WellFormed
  small : ∀ chunk ∈ chunks, chunk.data.length < 2 ^ 31
  stored : List.Forall₂ (ChunkRead before) res.chunks chunks

theorem ChunksRead.append {head : ResponseHead} {chunks : List ChunkText} {res : Response}
    (read : ChunksRead head chunks before res) (more : List Byte) :
    ChunksRead head chunks (before ++ more) res :=
  { read with stored := List.Forall₂.imp (fun _ _ one => one.append more) read.stored }

abbrev IsSize (digits : List Byte) : Prop :=
  Token (isHexChar · = true) (isHexChar · = true) digits

/-- The size of a chunk with data has been read. -/
structure Sized (digits : List Byte) (size : Int) : Prop where
  isSize : IsSize digits
  value : size = hexValue digits
  positive : 0 < hexValue digits
  small : hexValue digits < 2 ^ 31

/-- What has been read in each state of a body, except inside the data of a chunk. -/
def BodyTrail (memory before : List Byte) (l : Locals) : Prop :=
  match l.state with
  | .dataStart => ∃ head, HeadDone memory head before l.contentLength l.res ∧
      head.lines.any announcesChunks = false ∧ before = head.bytes
  | .newChunkStart => ∃ head chunks, ChunksRead head chunks before l.res ∧
      before = head.bytes ++ chunkBytes chunks
  | .chunkDataSize => ∃ head chunks digits, ChunksRead head chunks before l.res ∧ IsSize digits ∧
      before = head.bytes ++ chunkBytes chunks ++ digits ∧
      l.prevIt = (head.bytes ++ chunkBytes chunks).length
  | .zeroChunkSizeR => ∃ head chunks digits, ChunksRead head chunks before l.res ∧
      IsSize digits ∧ hexValue digits = 0 ∧
      before = head.bytes ++ chunkBytes chunks ++ (digits ++ [CR])
  | .chunkDataSizeR => ∃ head chunks digits, ChunksRead head chunks before l.res ∧
      Sized digits l.newChunkSize ∧ before = head.bytes ++ chunkBytes chunks ++ (digits ++ [CR])
  | .chunkDataSizeRn => ∃ head chunks digits, ChunksRead head chunks before l.res ∧
      Sized digits l.newChunkSize ∧ before = head.bytes ++ chunkBytes chunks ++ (digits ++ crlf)
  | .chunkDataR => ∃ head chunks, ChunksRead head chunks before l.res ∧
      before ++ [LF] = head.bytes ++ chunkBytes chunks
  | _ => False

/-- Inside the data of a chunk: so much of it has been jumped over, and so much is still to be. -/
def JumpTrail (before : List Byte) (skip : Nat) (l : Locals) : Prop :=
  l.state = .chunkDataEnd ∧ ∃ head chunks digits data stored,
    ChunksRead head chunks before { l.res with chunks := stored } ∧
    Sized digits (data.length + skip) ∧ data ≠ [] ∧
    before = head.bytes ++ chunkBytes chunks ++ (digits ++ crlf) ++ data ∧
    l.res.chunks = stored ++ [⟨hexValue digits,
      .range (head.bytes ++ chunkBytes chunks ++ (digits ++ crlf)).length
        ((head.bytes ++ chunkBytes chunks ++ (digits ++ crlf)).length + hexValue digits)⟩]

/-- What the parser has read where it is, when so many bytes are still to be jumped over. -/
def Trail (memory before : List Byte) (skip : Nat) (l : Locals) : Prop :=
  JumpTrail before skip l ∨ skip = 0 ∧
    ((l.state.InStatus ∧ OnlyStatus l ∧ StatusTrail before l) ∨ HeaderTrail memory before l ∨
      BodyTrail memory before l)

/-- What a turn in a body does to its trail. -/
theorem turn_bodyTrail (whole : memory = before ++ curChar :: ahead ++ after)
    (trail : BodyTrail memory before l) :
    (turn after before curChar ahead l).Leads
      (fun skip next => JumpTrail (before ++ [curChar]) skip next ∨
        skip = 0 ∧ BodyTrail memory (before ++ [curChar]) next) (fun _ => True) := by
  obtain ⟨state, prevIt, headerName, contentLength, newChunkSize, res⟩ := l
  cases state <;> simp only [BodyTrail] at trail
  case dataStart =>
    simp only [turn]
    trivial
  case newChunkStart =>
    obtain ⟨head, chunks, read, rfl⟩ := trail
    simp only [turn]
    split
    · rename_i hex
      exact Or.inr ⟨rfl, head, chunks, [curChar], read.append _, token_singleton hex, rfl, rfl⟩
    · trivial
  case chunkDataSize =>
    obtain ⟨head, chunks, digits, read, isSize, rfl, rfl⟩ := trail
    simp only [turn]
    split
    · rename_i hex
      exact Or.inr ⟨rfl, head, chunks, digits ++ [curChar], read.append _, isSize.snoc hex,
        by simp, rfl⟩
    · split
      · rename_i carriage
        rw [carriage, stoi16_size after _ isSize]
        by_cases small : hexValue digits < 2 ^ 31
        · rw [if_pos small]
          simp only
          split
          · rename_i notZero
            exact Or.inr ⟨rfl, head, chunks, digits, read.append _, ⟨isSize, rfl, by omega, small⟩,
              by simp⟩
          · rename_i zero
            exact Or.inr ⟨rfl, head, chunks, digits, read.append _, isSize, by omega, by simp⟩
        · rw [if_neg small]
          trivial
      · trivial
  case zeroChunkSizeR =>
    simp only [turn]
    split <;> trivial
  case chunkDataSizeR =>
    obtain ⟨head, chunks, digits, read, sized, rfl⟩ := trail
    simp only [turn]
    split
    · rename_i feed
      refine Or.inr ⟨rfl, head, chunks, digits, read.append _, sized, ?_⟩
      rw [feed]
      simp
    · trivial
  case chunkDataSizeRn =>
    obtain ⟨head, chunks, digits, read, sized, rfl⟩ := trail
    have positive := sized.positive
    have value : newChunkSize = hexValue digits := sized.value
    subst value
    simp only [turn, takeChunk]
    split
    · refine Or.inl ⟨rfl, head, chunks, digits, [curChar], res.chunks, ?_, ⟨sized.isSize, ?_,
        positive, sized.small⟩, by simp, rfl, rfl⟩
      · exact read.append [curChar]
      · rw [List.length_singleton]
        omega
    · trivial
  case chunkDataR =>
    obtain ⟨head, chunks, read, same⟩ := trail
    simp only [turn]
    split
    · rename_i feed
      exact Or.inr ⟨rfl, head, chunks, read.append _, by rw [feed, same]⟩
    · trivial

theorem JumpTrail.skipped {skip : Nat} (trail : JumpTrail before (skip + 1) l) (symbol : Byte) :
    JumpTrail (before ++ [symbol]) skip l := by
  obtain ⟨state, head, chunks, digits, data, stored, read, sized, nonempty, rfl, same⟩ := trail
  refine ⟨state, head, chunks, digits, data ++ [symbol], stored, read.append _,
    ⟨sized.isSize, ?_, sized.positive, sized.small⟩, by simp, by simp, same⟩
  have value := sized.value
  rw [List.length_append, List.length_singleton]
  omega

/-- After the data of a chunk its carriage return is due. -/
theorem turn_jumpTrail (memory : List Byte) (trail : JumpTrail before 0 l) :
    (turn after before curChar ahead l).Leads
      (fun skip next => skip = 0 ∧ BodyTrail memory (before ++ [curChar]) next)
      (fun _ => True) := by
  obtain ⟨_, prevIt, headerName, contentLength, newChunkSize, res⟩ := l
  obtain ⟨rfl, head, chunks, digits, data, stored, read, sized, nonempty, rfl, same⟩ := trail
  have size : hexValue digits = data.length := by
    have value := sized.value
    omega
  simp only at same
  simp only [turn]
  split
  · rename_i carriage
    refine ⟨rfl, head, chunks ++ [⟨digits, data⟩],
      ⟨read.good, read.nonempty, read.chunked, read.head,
      fun chunk member => ?_, fun chunk member => ?_, ?_⟩, ?_⟩
    · rcases List.mem_append.mp member with old | new
      · exact read.wellFormed chunk old
      · rw [List.mem_singleton.mp new]
        exact ⟨sized.isSize, size, nonempty⟩
    · rcases List.mem_append.mp member with old | new
      · exact read.small chunk old
      · rw [List.mem_singleton.mp new]
        exact size ▸ sized.small
    · rw [same]
      refine List.rel_append (read.append _).stored (.cons ⟨by rw [size], ?_⟩ .nil)
      refine StringView.text_range _ data [curChar] rfl rfl ?_
      rw [size, ← Int.natCast_add, ← List.length_append]
    · rw [carriage, chunkBytes_snoc]
      simp [ChunkText.bytes]
  · trivial

/-! ### The trail of a run -/

theorem inStatus_of_statusTrail (trail : StatusTrail before l) : l.state.InStatus := by
  obtain ⟨state, prevIt, headerName, contentLength, newChunkSize, res⟩ := l
  cases state <;> simp_all [StatusTrail, State.InStatus]

theorem trail_start (memory : List Byte) : Trail memory [] 0 (start .fresh) :=
  Or.inr ⟨rfl, Or.inl ⟨Or.inl rfl, ⟨rfl, _, _, _, _, rfl⟩, rfl⟩⟩

/-- Every turn keeps the trail. -/
theorem turn_trail (whole : memory = before ++ curChar :: ahead ++ after)
    (trail : Trail memory before 0 l) :
    (turn after before curChar ahead l).Leads (Trail memory (before ++ [curChar]))
      (fun _ => True) := by
  rcases trail with jumping | ⟨_, ⟨state, only, status⟩ | header | body⟩
  · refine (turn_jumpTrail memory jumping).mono ?_ fun _ _ => trivial
    rintro skip next ⟨zero, body⟩
    exact Or.inr ⟨zero, Or.inr (Or.inr body)⟩
  · refine ((turn_statusTrail status).and (turn_onlyStatus only state)).mono ?_ fun _ _ => trivial
    rintro skip next ⟨⟨zero, inStatus | ⟨state', line, good, same, read⟩⟩, only'⟩
    · exact Or.inr ⟨zero, Or.inl ⟨inStatus_of_statusTrail inStatus, only', inStatus⟩⟩
    · refine Or.inr ⟨zero, Or.inr (Or.inl ?_)⟩
      rw [HeaderTrail, state']
      refine ⟨⟨line, [], []⟩, rfl, ⟨⟨good, fun _ member => absurd member List.not_mem_nil,
        fun _ member => absurd member List.not_mem_nil, fun _ first => by cases first⟩, ?_,
        headRead_start read only', only'.1⟩⟩
      rw [same]
      simp [headerBytes]
  · refine (turn_headerTrail whole header).mono ?_ fun _ _ => trivial
    rintro skip next ⟨zero, inHeader | ⟨head, done, same, state⟩⟩
    · exact Or.inr ⟨zero, Or.inr (Or.inl inHeader)⟩
    · refine Or.inr ⟨zero, Or.inr (Or.inr ?_)⟩
      rw [same, BodyTrail, state, ResponseHead.bodyState]
      by_cases chunked : head.lines.any announcesChunks = true
      · rw [if_pos chunked]
        have none := done.read.chunks
        refine ⟨head, [], ⟨done.good, done.nonempty, chunked, ?_,
          fun _ member => absurd member List.not_mem_nil,
          fun _ member => absurd member List.not_mem_nil, ?_⟩, (List.append_nil _).symm⟩
        · rw [show ({ next.res with chunks := [] } : Response) = next.res by rw [← none]]
          exact done.read
        · rw [none]
          exact .nil
      · rw [if_neg chunked]
        exact ⟨head, done, Bool.eq_false_iff.mpr chunked, rfl⟩
  · refine (turn_bodyTrail whole body).mono ?_ fun _ _ => trivial
    rintro skip next (jumping | ⟨zero, inBody⟩)
    · exact Or.inl jumping
    · exact Or.inr ⟨zero, Or.inr (Or.inr inBody)⟩

theorem Trail.skipped {skip : Nat} (trail : Trail memory before (skip + 1) l) (symbol : Byte) :
    Trail memory (before ++ [symbol]) skip l := by
  rcases trail with jumping | ⟨zero, _⟩
  · exact Or.inl (jumping.skipped symbol)
  · cases zero

/-- Wherever a run stands, its trail is what it has read. -/
theorem trail_of_feed {read : List Byte} {skip : Nat}
    (inside : feed (turn after) [] read ahead 0 (start .fresh) = .inside skip l) :
    Trail (read ++ ahead ++ after) read skip l := by
  have leads : (feed (turn after) [] read ahead 0 (start .fresh)).Leads
      (Trail (read ++ ahead ++ after) ([] ++ read)) (fun _ => True) := by
    refine feed_invariant (Trail (read ++ ahead ++ after)) (trail_start _) ?_ ?_
    · intro before' symbol after' l' split trail
      refine turn_trail ?_ trail
      rw [split, List.nil_append]
    · intro before' symbol skip' l' trail
      exact trail.skipped symbol
  rw [inside] at leads
  exact leads

end ResponseParser

end Sheep
